import StaticLink.Proofs.Steps
import StaticLink.Proofs.SymbolTable.Targets
import StaticLink.Synthesis

/-!
# What the linker adds to the symbol table

The linker registers its own symbols like those of inputs, so that completing a table is one more
run of registrations. All of them are of things that the linker supplies.

* `SymbolTable.ReachedBy.of_supply` and the like: what holds of the symbols that a step supplies.
* `SymbolTable.steps_of_complete`, `SymbolTable.reached_of_complete`: the steps, and all of them.
-/

namespace StaticLink.SymbolTable

/-- The linker supplies what the target stands for. -/
def Supplied (target : Target) : Prop := target.isSynthesized = true

variable {table next : SymbolTable}

section

variable {P : Target → Prop}

/-! ### Any property of what is supplied -/

theorem ReachedBy.of_supply {name : String} {flags : SymbolFlags} {target : Target}
    (h : table.supply name flags target = .ok next) (supplied : P target) :
    ReachedBy P table next := by
  obtain ⟨⟨id, added⟩, one, done⟩ := bind_eq_ok.1 h
  cases done
  have call : table.register (.shared ⟨name, flags.union .hidden, Symbol.linkerContext, target⟩) =
      .ok (id, next) := one
  exact .of_register call supplied

theorem ReachedBy.of_supplyStubs (h : table.supplyStubs = .ok next)
    (stub : ∀ owner position, P (.function (.synthesized (.trapStub owner position)))) :
    ReachedBy P table next := by
  refine foldlM_keeps (ReachedBy P table) h ?_ (.refl _ table)
  intro before item after step reached
  exact reached.trans (.of_supply step (stub _ _))

theorem ReachedBy.of_supplyData {segments : List OutputSegment}
    (h : table.supplyData segments = .ok next)
    (marker : ∀ address, P (.data (.synthesized address))) : ReachedBy P table next := by
  obtain ⟨marked, markers, handle⟩ := bind_eq_ok.1 h
  have first : ReachedBy P table marked := by
    refine foldlM_keeps (ReachedBy P table) markers ?_ (.refl _ table)
    intro before segment after step reached
    obtain ⟨started, start, stop⟩ := bind_eq_ok.1 step
    have one : ReachedBy P before started := .of_supply start (marker _)
    have two : ReachedBy P started after := .of_supply stop (marker _)
    exact reached.trans (one.trans two)
  exact first.trans (.of_supply handle (marker _))

end

/-! ### That the linker supplies it -/

theorem reached_of_supply {name : String} {flags : SymbolFlags} {target : Target}
    (h : table.supply name flags target = .ok next) (supplied : Supplied target) :
    ReachedBy Supplied table next := .of_supply h supplied

theorem reached_of_supplyConstructorCaller {modules : List ObjectModule}
    (h : table.supplyConstructorCaller modules = .ok next) : ReachedBy Supplied table next := by
  obtain ⟨functions, -, h⟩ := bind_eq_ok.1 h
  dsimp only at h
  split at h
  · cases h
    exact .refl _ table
  · exact reached_of_supply h rfl

theorem reached_of_supplyStubs (h : table.supplyStubs = .ok next) :
    ReachedBy Supplied table next := .of_supplyStubs h fun _ _ => rfl

theorem reached_of_supplyData {segments : List OutputSegment}
    (h : table.supplyData segments = .ok next) : ReachedBy Supplied table next :=
  .of_supplyData h fun _ => rfl

/-- The steps in which a table is completed. What is left after them is a check. -/
theorem steps_of_complete {modules : List ObjectModule} {layout : DataLayout} {stackTop : Nat}
    (h : table.complete modules layout stackTop = .ok next) :
    ∃ called stubbed marked, table.supplyConstructorCaller modules = .ok called ∧
      called.supplyStubs = .ok stubbed ∧ stubbed.supplyData layout.segments = .ok marked ∧
      marked.supplyGlobals stackTop = .ok next ∧ next.undefinedData? = none := by
  obtain ⟨stubbed, functions, h⟩ := bind_eq_ok.1 h
  obtain ⟨marked, data, h⟩ := bind_eq_ok.1 h
  obtain ⟨last, globals, h⟩ := bind_eq_ok.1 h
  obtain ⟨called, caller, stubs⟩ := bind_eq_ok.1 functions
  split at h
  · cases h
  · next none =>
    cases h
    exact ⟨called, stubbed, marked, caller, stubs, data, globals, none⟩

/-- Completing a table registers what the linker supplies. -/
theorem reached_of_complete {modules : List ObjectModule} {layout : DataLayout} {stackTop : Nat}
    (h : table.complete modules layout stackTop = .ok next) : ReachedBy Supplied table next := by
  obtain ⟨called, stubbed, marked, caller, stubs, data, globals, -⟩ := steps_of_complete h
  have first := (reached_of_supplyConstructorCaller caller).trans (reached_of_supplyStubs stubs)
  exact first.trans ((reached_of_supplyData data).trans (reached_of_supply globals rfl))

/-! ## Strong definitions -/

/-- A strong definition that is accepted is what its record stands for. -/
theorem exists_target_of_adds {symbol : Symbol} {id : SymbolId} (adds : Adds table symbol id next)
    (defined : symbol.isUndefined = false) (strong : symbol.isWeak = false) :
    ∃ record, next.records[id]? = some record ∧ record.target = symbol.target := by
  cases adds with
  | introduced new =>
    rw [records_introduce]
    exact ⟨symbol, Array.getElem?_push_size, rfl⟩
  | @kept id existing known found merged =>
    rcases Symbol.merge_eq_keep_iff.1 merged with ⟨-, ⟨undefined, -⟩ | ⟨-, -, weak | same⟩⟩
    · rw [defined] at undefined
      cases undefined
    · rw [strong] at weak
      cases weak
    · exact ⟨existing, found, same⟩
  | strengthened known found merged =>
    rw [(Symbol.merge_eq_strengthen_iff.1 merged).2.1] at defined
    cases defined
  | replaced known found merged =>
    rw [records_resolve, Array.getElem?_setIfInBounds_self_of_lt (lt_size_of_getElem? found)]
    exact ⟨symbol, rfl, rfl⟩

/-- A complete table has the global that points to the top of the stack. -/
theorem exists_stackPointer_of_complete {modules : List ObjectModule} {layout : DataLayout}
    {stackTop : Nat} (h : table.complete modules layout stackTop = .ok next) :
    ∃ (id : SymbolId) (symbol : Symbol), next.get id = .ok symbol ∧
      symbol.target = .global (.synthesized (.ofInt stackTop)) := by
  obtain ⟨_, _, _, -, -, -, globals, -⟩ := steps_of_complete h
  obtain ⟨⟨id, added⟩, supplied, done⟩ := bind_eq_ok.1 globals
  cases done
  have strong : (SymbolFlags.empty.union .hidden).contains .weak = false := by decide
  obtain ⟨symbol, stands, target⟩ := exists_target_of_adds (adds_of_add_eq_ok supplied) rfl strong
  exact ⟨id, symbol, existing_eq_ok.2 stands, target⟩

end StaticLink.SymbolTable
