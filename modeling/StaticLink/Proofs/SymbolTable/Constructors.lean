import StaticLink.Proofs.Inputs.Intact
import StaticLink.Proofs.StableSort
import StaticLink.Proofs.SymbolTable.Completion

/-!
# The function that calls all initializers

* `PlacedInitializer`: an initializer of an input with its place.
* `CallOrder`: all initializers in the order in which they are called: by priority, and those of one
  priority in the order of the inputs.
* `SymbolTable.exists_calls`: the functions that are called belong to the initializers in that order.
* `SymbolTable.CallsAt`: the linker's function with these calls stands at an id.
* `SymbolTable.callsAt_of_complete`: there is one in a completed table exactly if there is an
  initializer or some input knows the name, and it is what the name stands for.
-/

namespace StaticLink

/-! ## Initializers in the order of their calls -/

/-- An initializer with the input that has it and its position there. -/
structure PlacedInitializer where
  owner : ModuleId
  module : ObjectModule
  position : Nat
  entry : Initializer
deriving DecidableEq

namespace PlacedInitializer

/-- The order of the inputs, and of the initializers in one of them. -/
def Earlier (first second : PlacedInitializer) : Prop :=
  first.owner < second.owner ∨ first.owner = second.owner ∧ first.position < second.position

/-- Lower priorities are called first. Where they are equal, the order of the inputs counts. -/
def Before (first second : PlacedInitializer) : Prop :=
  first.entry.priority < second.entry.priority ∨
    first.entry.priority = second.entry.priority ∧ first.Earlier second

/-- The entry of the symbol table that the initializer names is this symbol. -/
def Calls (placed : PlacedInitializer) (id : SymbolId) : Prop :=
  placed.module.slot placed.entry.symbol = .ok (.symbol id)

end PlacedInitializer

/-- The initializers of all modules, in the order of the modules. -/
def placedInitializers (modules : List ObjectModule) : List PlacedInitializer :=
  modules.zipIdx.flatMap fun (module, owner) =>
    module.initializers.toList.zipIdx.map fun (entry, position) => ⟨owner, module, position, entry⟩

variable {modules : List ObjectModule} {placed : PlacedInitializer}

theorem mem_placedInitializers : placed ∈ placedInitializers modules ↔
    modules[placed.owner]? = some placed.module ∧
      placed.module.initializers[placed.position]? = some placed.entry := by
  rw [placedInitializers, List.mem_flatMap]
  constructor
  · rintro ⟨⟨module, owner⟩, input, member⟩
    obtain ⟨⟨entry, position⟩, here, rfl⟩ := List.mem_map.1 member
    refine ⟨List.mk_mem_zipIdx_iff_getElem?.1 input, ?_⟩
    rw [← Array.getElem?_toList]
    exact List.mk_mem_zipIdx_iff_getElem?.1 here
  · rintro ⟨input, here⟩
    rw [← Array.getElem?_toList] at here
    refine ⟨(placed.module, placed.owner), List.mk_mem_zipIdx_iff_getElem?.2 input, ?_⟩
    exact List.mem_map.2 ⟨(placed.entry, placed.position),
      List.mk_mem_zipIdx_iff_getElem?.2 here, rfl⟩

theorem placedInitializers_pairwise (modules : List ObjectModule) :
    (placedInitializers modules).Pairwise PlacedInitializer.Earlier := by
  rw [placedInitializers, List.pairwise_flatMap]
  constructor
  · rintro ⟨module, owner⟩ -
    rw [List.pairwise_map]
    exact (pairwise_zipIdx _).imp fun less => Or.inr ⟨rfl, less⟩
  · refine (pairwise_zipIdx modules).imp ?_
    rintro ⟨module, owner⟩ ⟨other, behind⟩ less first one second two
    obtain ⟨_, -, rfl⟩ := List.mem_map.1 one
    obtain ⟨_, -, rfl⟩ := List.mem_map.1 two
    exact Or.inl less

/-- Without their places these are the initializers that a link goes through. -/
theorem map_placedInitializers (modules : List ObjectModule) :
    (placedInitializers modules).map (fun placed => (placed.module, placed.entry)) =
      modules.flatMap fun module => module.initializers.toList.map (module, ·) := by
  have inner (module : ObjectModule) (owner : ModuleId) :
      (module.initializers.toList.zipIdx.map fun (entry, position) =>
        (⟨owner, module, position, entry⟩ : PlacedInitializer)).map
          (fun placed => (placed.module, placed.entry)) =
        module.initializers.toList.map (module, ·) := by
    rw [List.map_map]
    conv_rhs => rw [← List.zipIdx_map_fst 0 module.initializers.toList, List.map_map]
    rfl
  rw [placedInitializers, List.map_flatMap]
  conv_rhs => rw [← List.zipIdx_map_fst 0 modules, List.flatMap_map]
  exact List.flatMap_congr fun input _ => inner input.1 input.2

/-- The calls are those of all initializers of the modules, once each, in their order. -/
structure CallOrder (modules : List ObjectModule) (calls : List PlacedInitializer) : Prop where
  mem : ∀ placed, placed ∈ calls ↔ modules[placed.owner]? = some placed.module ∧
    placed.module.initializers[placed.position]? = some placed.entry
  ordered : calls.Pairwise PlacedInitializer.Before

/-- Without an initializer there is nothing to be called. -/
theorem CallOrder.eq_nil_iff {calls : List PlacedInitializer} (order : CallOrder modules calls) :
    calls = [] ↔ ∀ module ∈ modules, module.initializers = #[] := by
  rw [List.eq_nil_iff_forall_not_mem]
  constructor
  · intro none module member
    obtain ⟨owner, input⟩ := List.mem_iff_getElem?.1 member
    by_contra some
    have first : 0 < module.initializers.size := Array.size_pos_iff.2 some
    exact none ⟨owner, module, 0, module.initializers[0]⟩
      ((order.mem _).2 ⟨input, Array.getElem?_eq_getElem first⟩)
  · intro none placed member
    obtain ⟨input, here⟩ := (order.mem placed).1 member
    rw [none placed.module (List.mem_of_getElem? input)] at here
    cases here

/-- Sorting by priority puts the initializers in their order. -/
theorem callOrder_mergeSort (modules : List ObjectModule) :
    CallOrder modules ((placedInitializers modules).mergeSort fun first second =>
      decide (first.entry.priority ≤ second.entry.priority)) := by
  constructor
  · intro placed
    rw [List.mem_mergeSort, mem_placedInitializers]
  · let le (first second : PlacedInitializer) : Bool :=
      decide (first.entry.priority ≤ second.entry.priority)
    have trans (first second third : PlacedInitializer) (one : le first second = true)
        (two : le second third = true) : le first third = true := by
      rw [decide_eq_true_eq] at one two ⊢
      exact UInt32.le_trans one two
    have total (first second : PlacedInitializer) :
        (le first second || le second first) = true := by
      rw [Bool.or_eq_true, decide_eq_true_eq, decide_eq_true_eq]
      exact UInt32.le_total _ _
    apply (pairwise_mergeSort_of_pairwise trans total (placedInitializers_pairwise modules)).imp
    intro first second ⟨small, tie⟩
    rw [decide_eq_true_eq] at small tie
    by_cases same : first.entry.priority = second.entry.priority
    · exact .inr ⟨same, tie (by rw [same]; exact UInt32.le_refl _)⟩
    · exact .inl (UInt32.lt_of_le_of_ne small same)

namespace SymbolTable

variable {table called next : SymbolTable} {id place : SymbolId} {record : Symbol}

theorem slot_of_initializerFunction {module : ObjectModule} {entry : Initializer}
    (h : table.initializerFunction module entry = .ok id) :
    module.slot entry.symbol = .ok (.symbol id) := by
  unfold initializerFunction at h
  obtain ⟨slot, here, h⟩ := bind_eq_ok.1 h
  split at h
  · obtain ⟨symbol, -, h⟩ := bind_eq_ok.1 h
    split at h
    · cases h
      exact here
    · cases h
  · cases h

/-- The functions that are called are those of the initializers, in their order. -/
theorem exists_calls {functions : List (UInt32 × SymbolId)}
    (h : table.initializerFunctions modules = .ok functions) :
    ∃ calls, CallOrder modules calls ∧
      List.Forall₂ PlacedInitializer.Calls calls (byPriority functions) := by
  unfold initializerFunctions at h
  dsimp only at h
  rw [← map_placedInitializers, List.mapM_map] at h
  have each : List.Forall₂ (fun placed called => called.1 = placed.entry.priority ∧
      placed.Calls called.2) (placedInitializers modules) functions := by
    refine (forall₂_of_mapM_eq_ok h).imp ?_
    intro placed called done
    obtain ⟨id, one, rfl⟩ := return_eq_ok.1 done
    exact ⟨rfl, slot_of_initializerFunction one⟩
  refine ⟨_, callOrder_mergeSort modules, ?_⟩
  rw [byPriority, List.forall₂_map_right_iff]
  refine (forall₂_mergeSort each ?_).imp fun _ _ both => both.2
  rintro placed other ⟨priority, id⟩ ⟨priority', id'⟩ ⟨rfl, -⟩ ⟨rfl, -⟩
  rfl

/-! ## The symbol of the linker -/

/-- The function that makes these calls, as the linker registers it. -/
def constructorCaller (functions : List SymbolId) : Symbol where
  name := constructorCallerName
  flags := SymbolFlags.empty.union .hidden
  context := Symbol.linkerContext
  target := .function (.synthesized (.constructorCaller functions))

theorem isWeak_constructorCaller (functions : List SymbolId) :
    (constructorCaller functions).isWeak = false := by
  show (SymbolFlags.empty.union .hidden).contains .weak = false
  decide

/-- The function at `id` is the linker's and makes these calls. -/
structure CallsAt (table : SymbolTable) (id : SymbolId) (functions : List SymbolId) : Prop where
  named : table.lookup constructorCallerName = some id
  stands : table.records[id]? = some (constructorCaller functions)

/-- The linker's function keeps its place and its calls whatever is registered later. -/
theorem CallsAt.later {functions : List SymbolId} (calls : table.CallsAt id functions)
    (later : table.Extends next) : next.CallsAt id functions where
  named := later.lookup _ _ calls.named
  stands := by
    obtain ⟨now, stands, becomes⟩ := later.record id _ calls.stands
    have strong : (constructorCaller functions).isStrongDefinition = true := by
      rw [Symbol.isStrongDefinition, isWeak_constructorCaller]
      rfl
    rwa [becomes.strong strong] at stands

/-- The target is the function that calls all initializers. -/
def IsCaller (target : Target) : Prop :=
  ∃ functions, target = .function (.synthesized (.constructorCaller functions))

/-- Where nothing else is supplied, the function takes the place of what the name stood for. -/
theorem callsAt_of_supply {functions : List SymbolId}
    (given : ∀ (id : SymbolId) (record : Symbol), table.records[id]? = some record →
      Given record.target)
    (h : table.supply constructorCallerName .empty
      (.function (.synthesized (.constructorCaller functions))) = .ok next) :
    ∃ id, next.CallsAt id functions ∧ ∀ (place : SymbolId) (record : Symbol),
      next.records[place]? = some record → IsCaller record.target → place = id := by
  obtain ⟨⟨id, added⟩, one, done⟩ := bind_eq_ok.1 h
  cases done
  have adds : Adds table (constructorCaller functions) id next := adds_of_add_eq_ok one
  have other {place : SymbolId} {record : Symbol} (old : table.records[place]? = some record) :
      ¬ IsCaller record.target := by
    rintro ⟨_, same⟩
    have inputs := given place record old
    rw [same] at inputs
    cases inputs
  cases adds with
  | introduced new =>
    refine ⟨table.records.size, ⟨?_, ?_⟩, ?_⟩
    · rw [lookup_introduce, show table.lookup constructorCallerName = none from new,
        Option.none_or]
      exact if_pos rfl
    · rw [records_introduce]
      exact Array.getElem?_push_size
    · intro place record found caller
      rw [records_introduce, Array.getElem?_push] at found
      split at found
      · assumption
      · exact absurd caller (other found)
  | @kept id existing known found merged =>
    -- A strong definition is kept out only by its own like, and no input has that.
    rcases (Symbol.merge_eq_keep_iff.1 merged).2 with ⟨undefined, -⟩ | ⟨-, -, weak | same⟩
    · cases undefined
    · rw [isWeak_constructorCaller] at weak
      cases weak
    · exact absurd ⟨functions, same⟩ (other found)
  | strengthened known found merged => cases (Symbol.merge_eq_strengthen_iff.1 merged).2.1
  | replaced known found merged =>
    refine ⟨id, ⟨?_, ?_⟩, ?_⟩
    · rw [lookup_resolve]
      exact known
    · rw [records_resolve]
      exact Array.getElem?_setIfInBounds_self_of_lt (lt_size_of_getElem? found)
    · intro place record found caller
      rw [records_resolve] at found
      rcases getElem?_setIfInBounds_cases found with old | ⟨same, -⟩
      · exact absurd caller (other old)
      · exact same

/-- A caller comes into the table only with `supplyConstructorCaller`. -/
theorem isCaller_of_reached (reached : ReachedBy (¬ IsCaller ·) table next)
    (found : next.records[place]? = some record) (caller : IsCaller record.target) :
    ∃ old, table.records[place]? = some old ∧ IsCaller old.target := by
  obtain ⟨calls, rfl, all⟩ := reached
  rcases target_of_run calls found with ⟨old, stands, same⟩ | ⟨call, member, same⟩
  · rw [same] at caller
    exact ⟨old, stands, caller⟩
  · rw [same] at caller
    exact absurd caller (all call member)

/-- What comes after the caller in the completion of a table is not a caller. -/
theorem steps_of_complete_after_caller {layout : DataLayout} {stackTop : Nat}
    (h : table.complete modules layout stackTop = .ok next) :
    ∃ called, table.supplyConstructorCaller modules = .ok called ∧
      ReachedBy (¬ IsCaller ·) called next := by
  obtain ⟨called, stubbed, marked, caller, stubs, data, globals, -⟩ := steps_of_complete h
  have one : ReachedBy (¬ IsCaller ·) called stubbed := .of_supplyStubs stubs (by
    rintro owner position ⟨_, ⟨⟩⟩)
  have two : ReachedBy (¬ IsCaller ·) stubbed marked := .of_supplyData data (by
    rintro address ⟨_, ⟨⟩⟩)
  have three : ReachedBy (¬ IsCaller ·) marked next := .of_supply globals (by
    rintro ⟨_, ⟨⟩⟩)
  exact ⟨called, caller, one.trans (two.trans three)⟩

/-- Some module has an initializer, or some input knows the name of what calls them. -/
def AsksForCaller (table : SymbolTable) (modules : List ObjectModule) : Prop :=
  (∃ module ∈ modules, module.initializers ≠ #[]) ∨ table.lookup constructorCallerName ≠ none

/-- Whether a completed table has a caller is whether some input asks for one, and there is no more
than one: it stands for the name, and makes the calls of all initializers in their order. -/
structure HasCaller (before : SymbolTable) (modules : List ObjectModule) (after : SymbolTable) :
    Prop where
  some_iff : (∃ id functions, after.CallsAt id functions) ↔ before.AsksForCaller modules
  only : ∀ (place : SymbolId) (record : Symbol), after.records[place]? = some record →
    ∀ functions, record.target = .function (.synthesized (.constructorCaller functions)) →
      after.CallsAt place functions
  calls : ∀ id functions, after.CallsAt id functions → ∃ calls, CallOrder modules calls ∧
    List.Forall₂ PlacedInitializer.Calls calls functions

/-- A caller is asked for exactly if the condition under which none is supplied does not hold. -/
theorem asksForCaller_iff {functions : List (UInt32 × SymbolId)}
    (gathered : table.initializerFunctions modules = .ok functions) :
    table.AsksForCaller modules ↔
      ¬ ((byPriority functions).isEmpty && (table.lookup constructorCallerName).isNone) = true := by
  obtain ⟨calls, order, each⟩ := exists_calls gathered
  have none_iff : byPriority functions = [] ↔ ∀ module ∈ modules, module.initializers = #[] := by
    rw [← order.eq_nil_iff, ← List.length_eq_zero_iff, ← each.length_eq, List.length_eq_zero_iff]
  rw [Bool.and_eq_true_iff, List.isEmpty_iff, Option.isNone_iff_eq_none, none_iff, not_and_or]
  have some_iff : (∃ module ∈ modules, module.initializers ≠ #[]) ↔
      ¬ ∀ module ∈ modules, module.initializers = #[] := by
    push Not
    rfl
  exact or_congr some_iff Iff.rfl

/-- Without a caller from the start there is none. -/
theorem hasCaller_of_skipped
    (given : ∀ (id : SymbolId) (record : Symbol), table.records[id]? = some record →
      Given record.target)
    (others : ReachedBy (¬ IsCaller ·) table next) (asked : ¬ table.AsksForCaller modules) :
    table.HasCaller modules next := by
  have absent {place : SymbolId} {record : Symbol} (found : next.records[place]? = some record) :
      ¬ IsCaller record.target := by
    intro is
    obtain ⟨old, stands, _, same⟩ := isCaller_of_reached others found is
    have inputs := given place old stands
    rw [same] at inputs
    cases inputs
  have nowhere {id : SymbolId} {functions : List SymbolId} : ¬ next.CallsAt id functions :=
    fun calls => absent calls.stands ⟨functions, rfl⟩
  refine ⟨⟨?_, fun asks => absurd asks asked⟩, ?_, ?_⟩
  · rintro ⟨id, functions, calls⟩
    exact absurd calls nowhere
  · intro place record found functions same
    exact absurd ⟨functions, same⟩ (absent found)
  · intro id functions calls
    exact absurd calls nowhere

/-- A caller that is supplied stays the only one. -/
theorem hasCaller_of_callsAt {functions : List SymbolId} {calls : List PlacedInitializer}
    (here : next.CallsAt id functions)
    (only : ∀ (place : SymbolId) (record : Symbol), next.records[place]? = some record →
      IsCaller record.target → place = id)
    (asked : table.AsksForCaller modules) (order : CallOrder modules calls)
    (each : List.Forall₂ PlacedInitializer.Calls calls functions) :
    table.HasCaller modules next := by
  have one {place : SymbolId} {record : Symbol} {other : List SymbolId}
      (found : next.records[place]? = some record)
      (same : record.target = .function (.synthesized (.constructorCaller other))) :
      place = id ∧ other = functions := by
    obtain rfl := only place record found ⟨other, same⟩
    rw [here.stands] at found
    cases found
    cases same
    exact ⟨rfl, rfl⟩
  refine ⟨⟨fun _ => asked, fun _ => ⟨id, functions, here⟩⟩, ?_, ?_⟩
  · intro place record found other same
    obtain ⟨rfl, rfl⟩ := one found same
    exact here
  · intro place other there
    obtain ⟨-, rfl⟩ := one there.stands rfl
    exact ⟨calls, order, each⟩

theorem hasCaller_of_complete {layout : DataLayout} {stackTop : Nat} (wf : table.WellFormed)
    (given : ∀ (id : SymbolId) (record : Symbol), table.records[id]? = some record →
      Given record.target)
    (h : table.complete modules layout stackTop = .ok next) :
    table.HasCaller modules next := by
  obtain ⟨called, caller, others⟩ := steps_of_complete_after_caller h
  have wf' := ((reached_of_supplyConstructorCaller caller).later wf).1
  obtain ⟨functions, gathered, caller⟩ := bind_eq_ok.1 caller
  have asks_iff := asksForCaller_iff gathered
  dsimp only at caller
  split at caller
  · next nothing =>
    cases caller
    exact hasCaller_of_skipped given others fun asks => asks_iff.1 asks nothing
  · next wanted =>
    obtain ⟨id, there, only⟩ := callsAt_of_supply given caller
    obtain ⟨calls, order, each⟩ := exists_calls gathered
    refine hasCaller_of_callsAt (there.later (others.later wf').2) ?_ (asks_iff.2 wanted) order each
    intro place record found is
    obtain ⟨old, stands, was⟩ := isCaller_of_reached others found is
    exact only place old stands was

end SymbolTable

end StaticLink
