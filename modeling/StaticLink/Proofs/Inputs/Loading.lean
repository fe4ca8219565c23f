import StaticLink.Proofs.Inputs.Imports
import StaticLink.Proofs.Steps
import StaticLink.Proofs.SymbolTable.Targets

/-!
# What the loading of an input leaves behind

* `entriesOf`: the entries of the symbol table of an input.
* `ObjectModule.Reads`: a module whose slots lead where its entries say.
* `Loader.resolve_cases`, `Loader.note_cases`, `Loader.note_other`: what one event does.
* `Loading.Sound`: the invariant of loading; `Loading.Sound.note` keeps it for every event.
* `ObjectModule.load_run`: loading goes through the events of a file without a fault;
  `ObjectModule.load_sound`: what is known of a module that was loaded.
-/

namespace StaticLink

/-- The entries of the symbol table among some events. -/
def entriesOf (events : List Event) : List SymbolEntry :=
  events.filterMap fun
    | .symbol _ entry => some entry
    | _ => none

theorem entriesOf_append_symbol (seen : List Event) (index : UInt32) (entry : SymbolEntry) :
    entriesOf (seen ++ [.symbol index entry]) = entriesOf seen ++ [entry] := by
  rw [entriesOf, List.filterMap_append]
  rfl

theorem entriesOf_append_other (seen : List Event) {event : Event}
    (other : ∀ index entry, event ≠ .symbol index entry) :
    entriesOf (seen ++ [event]) = entriesOf seen := by
  rw [entriesOf, List.filterMap_append]
  cases event with
  | symbol index entry => exact absurd rfl (other index entry)
  | _ => exact List.append_nil _

/-- Entries lead to symbols of their kinds, if their kind has symbols. -/
def SymbolTable.Entered (symbols : SymbolTable) (entry : SymbolEntry) (slot : Slot) : Prop :=
  match entry.targetKind? with
  | some kind => ∃ id, slot = .symbol id ∧ symbols.Registered id kind
  | none => ∀ id, slot ≠ .symbol id

theorem SymbolTable.Entered.later {symbols next : SymbolTable} {entry : SymbolEntry} {slot : Slot}
    (entered : symbols.Entered entry slot) (later : symbols.Extends next) :
    next.Entered entry slot := by
  unfold Entered at *
  split at entered
  · obtain ⟨id, same, registered⟩ := entered
    exact ⟨id, same, registered.later later⟩
  · exact entered

/-- The module has read these entries: they are in bounds, and its slots lead where they say. -/
structure ObjectModule.Reads (module : ObjectModule) (symbols : SymbolTable)
    (entries : List SymbolEntry) : Prop where
  size : module.slots.size = entries.length
  within : ∀ entry ∈ entries, entry.Within module
  entered : ∀ (i : Nat) (entry : SymbolEntry), entries[i]? = some entry →
    ∃ slot, module.slots[i]? = some slot ∧ symbols.Entered entry slot

/-- A slot more does not change what else a module has. -/
theorem ObjectModule.grows_push (module : ObjectModule) (slot : Slot) :
    module.Grows { module with slots := module.slots.push slot } :=
  { Grows.refl module with }

namespace ObjectModule.Reads

variable {old new : ObjectModule} {symbols next : SymbolTable} {entries : List SymbolEntry}

theorem later (reads : old.Reads symbols entries) (slots : new.slots = old.slots)
    (grows : old.Grows new) (later : symbols.Extends next) : new.Reads next entries where
  size := by rw [slots, reads.size]
  within := fun entry member => (reads.within entry member).grows grows
  entered := by
    intro i entry here
    obtain ⟨slot, there, entered⟩ := reads.entered i entry here
    exact ⟨slot, by rw [slots, there], entered.later later⟩

theorem push {entry : SymbolEntry} {slot : Slot} (reads : old.Reads symbols entries)
    (within : entry.Within old) (entered : symbols.Entered entry slot) :
    { old with slots := old.slots.push slot }.Reads symbols (entries ++ [entry]) where
  size := by simp [reads.size]
  within := by
    intro other member
    rcases List.mem_append.1 member with member | member
    · exact (reads.within other member).grows (grows_push old slot)
    · rw [List.mem_singleton.1 member]
      exact within.grows (grows_push old slot)
  entered := by
    intro i other here
    rw [List.getElem?_append] at here
    split at here
    · next earlier =>
      obtain ⟨found, there, entered⟩ := reads.entered i other here
      have size := reads.size
      exact ⟨found, by rw [Array.getElem?_push, if_neg (by omega), there], entered⟩
    · next last =>
      have first : i = entries.length := by
        have small := (List.getElem?_eq_some_iff.1 here).1
        rw [List.length_singleton] at small
        omega
      rw [first, Nat.sub_self] at here
      cases here
      exact ⟨slot, by rw [first, ← reads.size, Array.getElem?_push_size], entered⟩

end ObjectModule.Reads

namespace Loader

variable {owner : ModuleId} {before after : Loading} {event : Event} {symbol : Symbol}
  {id : SymbolId}

/-- The call that registers a symbol of an input. -/
def registration (symbol : Symbol) : SymbolTable.Registration :=
  if symbol.isLocal then .own symbol else .shared symbol

theorem symbol_registration (symbol : Symbol) : (registration symbol).symbol = symbol := by
  unfold registration
  split <;> rfl

theorem register_eq_ok (h : register symbol before = .ok id after) :
    before.symbols.register (registration symbol) = .ok (id, after.symbols) ∧
      after.module = before.module := by
  obtain ⟨_, _, read, h⟩ := state_bind_eq_ok.1 h
  cases read
  unfold registration
  split at h
  · next own =>
    cases h
    rw [if_pos own]
    exact ⟨rfl, rfl⟩
  · next shared =>
    rw [if_neg shared]
    rcases outcome : before.symbols.add symbol with error | ⟨found, symbols⟩
    · rw [outcome] at h
      cases h
    · rw [outcome] at h
      cases h
      exact ⟨outcome, rfl⟩

/-- An entry that is accepted has no symbol, or what it names was registered and has become the
symbol of the import that it stands for. -/
theorem resolve_cases {index : UInt32} {entry : SymbolEntry} {slot : Slot}
    (h : resolve owner index entry before = .ok slot after) :
    (before.module.resolve owner index entry = .ok (.unnamed slot) ∧ after = before) ∨
      ∃ name target id, before.module.resolve owner index entry = .ok (.named name target) ∧
        slot = .symbol id ∧ after.module = before.module.nameImport target id ∧
        before.symbols.register (registration ⟨name, entry.flags, before.module.name, target⟩) =
          .ok (id, after.symbols) := by
  obtain ⟨_, _, read, h⟩ := state_bind_eq_ok.1 h
  cases read
  rcases resolved : before.module.resolve owner index entry with defect | meaning
  · rw [resolved] at h
    cases h
  rw [resolved] at h
  cases meaning with
  | tag => cases h
  | unnamed other =>
    cases h
    exact .inl ⟨rfl, rfl⟩
  | named name target =>
    obtain ⟨id, ⟨module, symbols, start⟩, one, h⟩ := state_bind_eq_ok.1 h
    obtain ⟨call, rfl⟩ := register_eq_ok one
    cases h
    exact .inr ⟨name, target, id, rfl, rfl, rfl, call⟩

/-- What is said about a segment must be about one that the module has. -/
theorem note_segmentInfo (owner : ModuleId) (index alignment flags : UInt32) (name : String)
    (before : Loading) : note owner (.segmentInfo index name alignment flags) before =
      if index.toNat < before.module.dataSegments.size then
        .ok () { before with
          module := before.module.describeSegment index { name, alignment, flags } }
      else .error (.malformed ⟨.invalidSegmentIndex index, before.sectionStart⟩) before := by
  show (if _ then _ else _ : Loader Unit) before = _
  split <;> rfl

/-- A relocation must be against a section that the module has. -/
theorem note_relocation (owner : ModuleId) (target : UInt32) (relocation : Relocation)
    (before : Loading) : note owner (.relocation target relocation) before =
      if target.toNat < before.module.sections.size then
        .ok () { before with module := before.module.addRelocation target relocation }
      else .error (.malformed ⟨.invalidSectionIndex target, before.sectionStart⟩) before := by
  show (if _ then _ else _ : Loader Unit) before = _
  split <;> rfl

/-- An event that is accepted is an entry of the symbol table, which is resolved and has its slot
put behind the others, or it is something else. -/
theorem note_cases (h : note owner event before = .ok () after) :
    (∃ index entry slot middle, event = .symbol index entry ∧
      resolve owner index entry before = .ok slot middle ∧
      after = { middle with
        module := { middle.module with slots := middle.module.slots.push slot } }) ∨
      ∀ index entry, event ≠ .symbol index entry := by
  by_cases symbol : ∃ index entry, event = .symbol index entry
  · obtain ⟨index, entry, rfl⟩ := symbol
    obtain ⟨slot, middle, one, h⟩ := state_bind_eq_ok.1 h
    cases h
    exact .inl ⟨index, entry, slot, middle, rfl, one, rfl⟩
  · exact .inr fun index entry same => symbol ⟨index, entry, same⟩

/-- An event that is no symbol only adds to the module. -/
theorem note_other (h : note owner event before = .ok () after)
    (other : ∀ index entry, event ≠ .symbol index entry) :
    after.symbols = before.symbols ∧ after.module.slots = before.module.slots ∧
      before.module.Grows after.module ∧
      after.module.importSymbol? = before.module.importSymbol? := by
  cases event with
  | symbol index entry => exact absurd rfl (other index entry)
  | memory =>
    cases h
    exact ⟨rfl, rfl, .refl before.module, rfl⟩
  | functionImport module field _ typeIndex =>
    cases h
    refine ⟨rfl, rfl, ?_, ObjectModule.importSymbol?_push _ rfl⟩
    constructor <;> simp
  | segmentInfo =>
    rw [note_segmentInfo] at h
    split at h
    · cases h
      refine ⟨rfl, rfl, ?_, rfl⟩
      constructor <;> simp [ObjectModule.describeSegment]
    · cases h
  | relocation =>
    rw [note_relocation] at h
    split at h
    · cases h
      exact ⟨rfl, rfl, { ObjectModule.Grows.refl before.module with }, rfl⟩
    · cases h
  | _ =>
    -- Each of these puts one thing into the module.
    cases h
    refine ⟨rfl, rfl, ?_, rfl⟩
    constructor <;> simp

/-- A symbol that is accepted names its import in the module. -/
theorem nameImport_grows (module : ObjectModule) (target : Target) (id : SymbolId) :
    (module.nameImport target id).slots = module.slots ∧
      module.Grows (module.nameImport target id) := by
  unfold ObjectModule.nameImport
  split
  · refine ⟨rfl, ?_⟩
    constructor <;> simp
  · refine ⟨rfl, ?_⟩
    constructor <;> simp
  · exact ⟨rfl, .refl module⟩

variable {index : UInt32} {entry : SymbolEntry} {slot : Slot} {modules : List ObjectModule}

/-- An entry was resolved: it is in bounds and has the slot of what was registered for it, and it
has given its symbol to the import that it stands for. -/
structure Resolved (modules : List ObjectModule) (entry : SymbolEntry) (slot : Slot)
    (before after : Loading) : Prop where
  within : entry.Within before.module
  entered : after.symbols.Entered entry slot
  slots : after.module.slots = before.module.slots
  grows : before.module.Grows after.module
  registered : SymbolTable.ReachedBy (Target.Within (modules ++ [after.module])) before.symbols
    after.symbols
  imports : ∀ position id, after.module.importSymbol? position = some id →
    entry.import? = some position ∧ slot = .symbol id ∨
      entry.import? ≠ some position ∧ before.module.importSymbol? position = some id

theorem resolve_eq_ok (h : resolve owner index entry before = .ok slot after)
    (place : owner = modules.length) (wf : before.symbols.WellFormed) :
    Resolved modules entry slot before after := by
  rcases resolve_cases h with ⟨resolved, rfl⟩ | ⟨name, target, id, resolved, rfl, named, call⟩
  · obtain ⟨within, unnamed, noSymbol⟩ := ObjectModule.means_of_resolve resolved
    refine ⟨within, ?_, rfl, .refl after.module, .refl _ after.symbols, ?_⟩
    · rw [SymbolTable.Entered, unnamed]
      exact noSymbol
    · intro position id stands
      rw [SymbolEntry.import?_of_targetKind? unnamed]
      exact .inr ⟨by simp, stands⟩
  · obtain ⟨within, ⟨kind, import'⟩, has, owns⟩ := ObjectModule.means_of_resolve resolved
    obtain ⟨slots, grows⟩ := nameImport_grows before.module target id
    rw [← named] at slots grows
    have there := SymbolTable.registered_of_register wf call
    rw [symbol_registration] at there
    refine ⟨within, ?_, slots, grows, .of_register call ?_, ?_⟩
    · rw [SymbolTable.Entered, kind]
      exact ⟨id, rfl, there⟩
    · rw [symbol_registration]
      exact Target.within_of_has (has.grows grows) fun other here => (owns other here).trans place
    · intro position other stands
      rw [import']
      rw [named] at stands
      rcases ObjectModule.importSymbol?_nameImport stands with ⟨same, rfl⟩ | before
      · exact .inl ⟨same, rfl⟩
      · exact .inr before

end Loader

/-! ## The invariant of loading -/

/-- How far loading has come after some events: symbols of this input were registered after those
in `start`, and the module has read the entries so far. -/
structure Loading.Sound (modules : List ObjectModule) (start : SymbolTable) (seen : List Event)
    (loading : Loading) : Prop where
  registered : SymbolTable.ReachedBy (Target.Within (modules ++ [loading.module])) start
    loading.symbols
  reads : loading.module.Reads loading.symbols (entriesOf seen)
  imports : loading.module.NamesImports (entriesOf seen)

namespace Loading.Sound

variable {modules : List ObjectModule} {start : SymbolTable} {seen : List Event}
  {before after : Loading} {event : Event}

/-- Before the first event nothing is read and nothing is registered. -/
theorem init (modules : List ObjectModule) (symbols : SymbolTable) (name : String)
    (bytes : Bytes) : Loading.Sound modules symbols [] { module := { name, bytes }, symbols } :=
  ⟨.refl _ symbols, ⟨rfl, by simp [entriesOf], by simp [entriesOf]⟩, by
    intro index id stands
    cases stands⟩

theorem later (sound : before.Sound modules start seen) (wf : start.WellFormed)
    (slots : after.module.slots = before.module.slots)
    (grows : before.module.Grows after.module)
    (step : SymbolTable.ReachedBy (Target.Within (modules ++ [after.module])) before.symbols
      after.symbols) :
    SymbolTable.ReachedBy (Target.Within (modules ++ [after.module])) start after.symbols ∧
      after.module.Reads after.symbols (entriesOf seen) := by
  have registered := sound.registered.mono fun _ within => within.grows grows
  have later := (step.later (sound.registered.later wf).1).2
  exact ⟨registered.trans step, sound.reads.later slots grows later⟩

/-- Every event keeps the invariant. -/
theorem note (sound : before.Sound modules start seen) (wf : start.WellFormed)
    (h : Loader.note modules.length event before = .ok () after) :
    after.Sound modules start (seen ++ [event]) := by
  rcases Loader.note_cases h with ⟨index, entry, slot, middle, rfl, one, rfl⟩ | other
  · have resolved := Loader.resolve_eq_ok one rfl (sound.registered.later wf).1
    obtain ⟨registered, reads⟩ := sound.later wf resolved.slots resolved.grows resolved.registered
    have pushed := ObjectModule.grows_push middle.module slot
    refine ⟨registered.mono fun _ within => within.grows pushed, ?_, ?_⟩
    · rw [entriesOf_append_symbol]
      exact reads.push (resolved.within.grows resolved.grows) resolved.entered
    · rw [entriesOf_append_symbol]
      exact sound.imports.push sound.reads.size resolved.slots resolved.imports
  · obtain ⟨symbols, slots, grows, imports⟩ := Loader.note_other h other
    have step : SymbolTable.ReachedBy (Target.Within (modules ++ [after.module])) before.symbols
        after.symbols := by
      rw [symbols]
      exact .refl _ before.symbols
    obtain ⟨registered, reads⟩ := sound.later wf slots grows step
    rw [← entriesOf_append_other seen other] at reads
    refine ⟨registered, reads, ?_⟩
    rw [entriesOf_append_other seen other]
    exact sound.imports.later slots imports

end Loading.Sound

/-- A module that was loaded is what all events of its file have made of it. -/
theorem ObjectModule.load_run {owner : ModuleId} {name : String} {bytes : Bytes}
    {start symbols : SymbolTable} {module : ObjectModule}
    (h : ObjectModule.load owner name bytes start = .ok module symbols) :
    (Transcript.ofBytes bytes).fault = none ∧ ∃ last : Loading,
      (Transcript.ofBytes bytes).events.forM (Loader.note owner)
        { module := { name, bytes }, symbols := start } = .ok () last ∧
      last.module = module ∧ last.symbols = symbols := by
  unfold ObjectModule.load at h
  split at h
  · next loading all =>
    cases h
    obtain ⟨⟨⟩, last, events, rest⟩ := state_bind_eq_ok.1 all
    rcases fault : (Transcript.ofBytes bytes).fault with _ | fault
    · rw [fault] at rest
      cases rest
      exact ⟨rfl, _, events, rfl, rfl⟩
    · rw [fault] at rest
      cases rest
  · cases h

/-- A module that was loaded as the next one has read all its entries, its imports have the symbols
of the last ones for them, and what it registered is in bounds. -/
theorem ObjectModule.load_sound {modules : List ObjectModule} {start symbols : SymbolTable}
    {name : String} {bytes : Bytes} {module : ObjectModule} (wf : start.WellFormed)
    (h : ObjectModule.load modules.length name bytes start = .ok module symbols) :
    SymbolTable.ReachedBy (Target.Within (modules ++ [module])) start symbols ∧
      module.Reads symbols (entriesOf (Transcript.ofBytes bytes).events) ∧
      module.NamesImports (entriesOf (Transcript.ofBytes bytes).events) := by
  obtain ⟨-, last, events, rfl, rfl⟩ := load_run h
  have sound : last.Sound modules start ([] ++ (Transcript.ofBytes bytes).events) := by
    refine forM_keeps (fun seen loading => loading.Sound modules start seen) events ?_
      (.init modules start name bytes)
    intro seen event before after step sound
    exact sound.note wf step
  exact ⟨sound.registered, sound.reads, sound.imports⟩

end StaticLink
