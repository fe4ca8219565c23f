import StaticLink.Link
import StaticLink.Proofs.Renaming

/-!
# Loading inputs under other names

The name of an input goes into its module and into the records of its symbols. No step of loading
looks at either, apart from telling them in an error.

* `Symbol.rename`, `SymbolTable.rename`, `ObjectModule.rename`: these where inputs have other names.
* `SymbolTable.renames_add`: registering a symbol.
* `Loader.renames_note`, `ObjectModule.renames_load`: loading an input.
* `Session.renames_addAll`: adding inputs.
-/

namespace StaticLink

/-- The record of a symbol where inputs have other names. -/
def Symbol.rename (f : String → String) (symbol : Symbol) : Symbol :=
  { symbol with context := f symbol.context }

/-- The table where inputs have other names. -/
def SymbolTable.rename (f : String → String) (table : SymbolTable) : SymbolTable :=
  { table with records := table.records.map (Symbol.rename f) }

/-- The module where inputs have other names. -/
def ObjectModule.rename (f : String → String) (module : ObjectModule) : ObjectModule :=
  { module with name := f module.name }

/-- How far loading has come where inputs have other names. -/
def Loading.rename (f : String → String) (loading : Loading) : Loading :=
  { loading with module := loading.module.rename f, symbols := loading.symbols.rename f }

/-- The session where inputs have other names. -/
def Session.rename (f : String → String) (session : Session) : Session where
  modules := session.modules.map (ObjectModule.rename f)
  symbols := session.symbols.rename f

variable {f : String → String}

/-! ## The symbol table -/

theorem Symbol.renames_merge (existing incoming : Symbol) :
    Renames f id (existing.merge incoming) ((existing.rename f).merge (incoming.rename f)) := by
  unfold merge
  refine .ite (.error _) (.ite (.ite (.ok _) (.ok _)) ?_)
  exact .ite (.ok _) (.ite (.ok _) (.ite (.ok _) (.error _)))

namespace SymbolTable

theorem lookup_rename (table : SymbolTable) (name : String) :
    (table.rename f).lookup name = table.lookup name := rfl

theorem getElem?_rename (table : SymbolTable) (id : SymbolId) :
    (table.rename f).records[id]? = table.records[id]?.map (Symbol.rename f) :=
  Array.getElem?_map ..

theorem renames_get (table : SymbolTable) (id : SymbolId) :
    Renames f (Symbol.rename f) (table.get id) ((table.rename f).get id) := by
  unfold get
  rw [getElem?_rename]
  exact .existing _

theorem listSynthetic_rename (table : SymbolTable) (id : SymbolId) (target : Target) :
    (table.rename f).listSynthetic id target = (table.listSynthetic id target).rename f := by
  unfold listSynthetic
  split <;> rfl

theorem allocate_rename (table : SymbolTable) (symbol : Symbol) :
    (table.rename f).allocate (symbol.rename f) =
      ((table.allocate symbol).1, (table.allocate symbol).2.rename f) := by
  have size : (table.rename f).records.size = table.records.size := Array.size_map
  have records : (table.rename f).records.push (symbol.rename f) =
      (table.records.push symbol).map (Symbol.rename f) := Array.map_push.symm
  unfold allocate
  simp only [size, records]
  exact congrArg (_, ·) (listSynthetic_rename { table with records := _ } _ _)

theorem replace_rename (table : SymbolTable) (id : SymbolId) (symbol : Symbol) :
    (table.rename f).replace id (symbol.rename f) = (table.replace id symbol).rename f := by
  unfold replace rename
  simp only [Array.map_setIfInBounds]

/-- Registering a symbol changes the table in the same way, and only an error tells whose symbols
they are. -/
theorem renames_add (table : SymbolTable) (symbol : Symbol) :
    Renames f (Prod.map id (SymbolTable.rename f)) (table.add symbol)
      ((table.rename f).add (symbol.rename f)) := by
  unfold add
  rw [show (symbol.rename f).name = symbol.name from rfl, lookup_rename]
  cases table.lookup symbol.name with
  | none =>
    dsimp only
    rw [allocate_rename]
    exact .pure _
  | some id =>
    refine (table.renames_get id).bind fun existing => ?_
    -- Which of the two counts does not depend on where they come from.
    refine (existing.renames_merge symbol).bind fun merge => ?_
    cases merge with
    | keep => exact .pure _
    | strengthen =>
      have same : (existing.rename f).strengthened = existing.strengthened.rename f := rfl
      dsimp only
      rw [same, replace_rename]
      exact .pure _
    | replace =>
      have target : (symbol.rename f).target = symbol.target := rfl
      dsimp only
      rw [target, replace_rename, listSynthetic_rename]
      exact .pure _

end SymbolTable

/-! ## Loading -/

namespace ObjectModule

variable (module : ObjectModule)

theorem resolve_rename (owner : ModuleId) (entryIndex : UInt32) (entry : SymbolEntry) :
    (module.rename f).resolve owner entryIndex entry = module.resolve owner entryIndex entry := rfl

theorem nameImport_rename (target : Target) (id : SymbolId) :
    (module.rename f).nameImport target id = (module.nameImport target id).rename f := by
  unfold nameImport
  split <;> rfl

end ObjectModule

namespace Loader

/-- What changes a module without its name changes it in the same way. -/
theorem renames_update {change : ObjectModule → ObjectModule}
    (same : ∀ module, change (ObjectModule.rename f module) = (change module).rename f) :
    StateRenames f (Loading.rename f) id (update change) (update change) :=
  .modifies fun loading => congrArg
    (Loading.mk · (loading.symbols.rename f) loading.sectionStart) (same loading.module)

theorem renames_fail {α : Type} {change : α → α} (defect : Defect) :
    StateRenames f (Loading.rename f) change (fail defect) (fail defect) :=
  StateRenames.get.bind fun loading => .throw (.malformed ⟨defect, loading.sectionStart⟩)

theorem renames_register (symbol : Symbol) :
    StateRenames f (Loading.rename f) id (register symbol) (register (symbol.rename f)) := by
  unfold register
  refine StateRenames.get.bind fun loading => .ite ?_ ?_
  · have same : (loading.rename f).symbols.addLocal (symbol.rename f) =
        ((loading.symbols.addLocal symbol).1, (loading.symbols.addLocal symbol).2.rename f) :=
      loading.symbols.allocate_rename symbol
    dsimp only
    rw [same]
    exact (StateRenames.set _).bind fun _ => .pure _
  · have same : Renames f (Prod.map id (SymbolTable.rename f)) _
        ((loading.rename f).symbols.add (symbol.rename f)) := loading.symbols.renames_add symbol
    rw [same]
    cases loading.symbols.add symbol with
    | error cause => exact .throw cause
    | ok added => exact (StateRenames.set _).bind fun _ => .pure _

theorem renames_resolve (owner : ModuleId) (index : UInt32) (entry : SymbolEntry) :
    StateRenames f (Loading.rename f) id (resolve owner index entry)
      (resolve owner index entry) := by
  unfold resolve
  refine StateRenames.get.bind fun loading => ?_
  have same : (loading.rename f).module.resolve owner index entry =
      loading.module.resolve owner index entry := loading.module.resolve_rename owner index entry
  dsimp only
  rw [same]
  rcases loading.module.resolve owner index entry with defect | ⟨name, target⟩ | slot | _
  · exact renames_fail defect
  · refine (renames_register _).bind fun id => ?_
    refine (renames_update fun module => ?_).bind fun _ => .pure _
    exact module.nameImport_rename target id
  · exact .pure slot
  · exact .throw _

theorem renames_note (owner : ModuleId) (event : Event) :
    StateRenames f (Loading.rename f) id (note owner event) (note owner event) := by
  cases event with
  | opening header =>
    refine .bind (.modifies fun _ => ?_) fun _ => renames_update fun _ => ?_
    · rfl
    · rfl
  | memory index limits => exact .pure ()
  | segmentInfo index name alignment flags =>
    refine StateRenames.get.bind fun loading => .ite ?_ (renames_fail _)
    exact renames_update fun _ => by rfl
  | relocation target relocation =>
    refine StateRenames.get.bind fun loading => .ite ?_ (renames_fail _)
    exact renames_update fun _ => by rfl
  | symbol index entry =>
    exact (renames_resolve owner index entry).bind fun _ => renames_update fun _ => by rfl
  | _ =>
    unfold note
    exact renames_update fun _ => by rfl

end Loader

theorem Transcript.renames_forEach (transcript : Transcript) {σ : Type} {states : σ → σ}
    {step : Event → EStateM Error σ Unit}
    (each : ∀ event ∈ transcript.events, StateRenames f states id (step event) (step event)) :
    StateRenames f states id (transcript.forEach step) (transcript.forEach step) := by
  have all : StateRenames f states id (transcript.events.forM step)
      ((transcript.events.map id).forM step) := .forM each
  rw [List.map_id] at all
  refine all.bind fun _ => ?_
  cases transcript.fault with
  | some fault => exact .throw (.malformed fault)
  | none => exact .pure ()

theorem ObjectModule.renames_load (owner : ModuleId) (name : String) (bytes : Bytes) :
    StateRenames f (SymbolTable.rename f) (ObjectModule.rename f) (load owner name bytes)
      (load owner (f name) bytes) := by
  intro symbols
  let start : Loading := { module := { name, bytes }, symbols }
  let start' : Loading := { module := { name := f name, bytes }, symbols := symbols.rename f }
  obtain ⟨succeeds, fails⟩ := (Transcript.ofBytes bytes).renames_forEach
    (fun event _ => Loader.renames_note owner event) start
  refine ⟨?_, ?_⟩
  · intro module after h
    unfold load at h
    split at h
    · next loading run =>
      cases h
      have run' : (Transcript.ofBytes bytes).forEach (Loader.note owner) start' =
          .ok () (loading.rename f) := succeeds () loading run
      unfold load
      rw [run']
      rfl
    · cases h
  · intro cause after h
    unfold load at h
    split at h
    · cases h
    · next loading run =>
      cases h
      have run' : (Transcript.ofBytes bytes).forEach (Loader.note owner) start' =
          .error (cause.rename f) (loading.rename f) := fails cause loading run
      unfold load
      rw [run']
      rfl

/-! ## Sessions -/

namespace Session

theorem renames_add (name : String) (bytes : Bytes) :
    StateRenames f (Session.rename f) id (add name bytes) (add (f name) bytes) := by
  intro session
  have owner : (session.rename f).modules.length = session.modules.length := List.length_map _
  obtain ⟨succeeds, fails⟩ := ObjectModule.renames_load session.modules.length name bytes
    session.symbols
  refine ⟨?_, ?_⟩
  · intro id after h
    unfold add at h
    dsimp only at h
    split at h
    · next module symbols loaded =>
      cases h
      have loaded' : ObjectModule.load session.modules.length (f name) bytes
          (session.rename f).symbols = .ok (module.rename f) (symbols.rename f) :=
        succeeds module symbols loaded
      unfold add
      dsimp only
      rw [owner, loaded']
      refine congrArg (EStateM.Result.ok _) (congrArg (Session.mk · _) ?_)
      show _ = (session.modules ++ [module]).map (ObjectModule.rename f)
      rw [List.map_append]
      rfl
    · cases h
  · intro cause after h
    unfold add at h
    dsimp only at h
    split at h
    · cases h
    · next cause symbols loaded =>
      cases h
      have loaded' : ObjectModule.load session.modules.length (f name) bytes
          (session.rename f).symbols = .error (cause.rename f) (symbols.rename f) :=
        fails cause symbols loaded
      unfold add
      dsimp only
      rw [owner, loaded']
      rfl

theorem renames_addAll (inputs : List (String × Bytes)) :
    StateRenames f (Session.rename f) id (addAll inputs) (addAll (inputs.map (Prod.map f id))) := by
  refine .forM fun input _ => ?_
  exact (renames_add input.1 input.2).discard

theorem empty_rename : Session.empty.rename f = .empty := by
  have records : SymbolTable.empty.records.map (Symbol.rename f) = #[] := Array.map_empty
  unfold rename SymbolTable.rename
  rw [show Session.empty.symbols.records.map (Symbol.rename f) = #[] from records]
  rfl

/-- The inputs of a link are added in the same way whatever they are called. -/
theorem addAll_rename (inputs : List (String × Bytes)) :
    (∀ session, addAll inputs .empty = .ok () session →
      addAll (inputs.map (Prod.map f id)) .empty = .ok () (session.rename f)) ∧
    ∀ cause session, addAll inputs .empty = .error cause session →
      addAll (inputs.map (Prod.map f id)) .empty =
        .error (cause.rename f) (session.rename f) := by
  have added : StateRenames f (Session.rename f) id (addAll inputs)
      (addAll (inputs.map (Prod.map f id))) := renames_addAll inputs
  have run := added .empty
  rw [empty_rename] at run
  exact ⟨run.1 (), run.2⟩

end Session

end StaticLink
