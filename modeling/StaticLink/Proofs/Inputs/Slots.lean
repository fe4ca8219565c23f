import Mathlib.Data.List.Forall2
import StaticLink.Proofs.Inputs.Naming
import StaticLink.Proofs.SymbolTable.Binding

/-!
# The slots of an input

Every entry of an input's symbol table gets a slot at its position in the module. The slot leads to
a symbol in a table that the input shares with others, and that goes on changing.

* `SymbolTable.Holds`: what the slot of an entry leads to, in the table at any later time.
* `OwnIds`: no slot leads to the symbol of another entry that is private.
* `Loader.placed_of_resolve`, `Loading.Slotted.note`: what one entry and one event add.
* `ObjectModule.load_slotted`: the slots of a module that was loaded.
-/

namespace StaticLink

/-! ## What a slot leads to -/

/-- The slot is that of the entry. An entry for a function, a global or data was registered as a
symbol of its name, kind and flags, and the slot leads to the id that this symbol got. -/
inductive SymbolTable.Holds (symbols : SymbolTable) (module : ObjectModule) :
    (entry : SymbolEntry) → (slot : Slot) → Prop
  | symbol {entry : SymbolEntry} {symbol : Symbol} {id : SymbolId}
      (name : module.entryName? entry = some symbol.name)
      (kind : entry.targetKind? = some symbol.target.kind)
      (flags : symbol.flags = entry.flags)
      (place : symbol.target.importPlace? = entry.importPlace?)
      (binds : symbols.Binds symbol id) :
    Holds symbols module entry (.symbol id)
  | wholeSection (flags : SymbolFlags) (position : UInt32) :
    Holds symbols module (.wholeSection flags position) (.wholeSection position)
  | table (flags : SymbolFlags) (index : UInt32) (name : Option String) :
    Holds symbols module (.table flags index name) (.table index)

namespace SymbolTable.Holds

variable {symbols next : SymbolTable} {module new other : ObjectModule}
  {entry entry' : SymbolEntry} {slot : Slot} {id : SymbolId} {P : Target → Prop}

theorem later (holds : symbols.Holds module entry slot) (wf : symbols.WellFormed)
    (reached : ReachedBy P symbols next) : next.Holds module entry slot := by
  cases holds with
  | symbol name kind flags place binds =>
    exact .symbol name kind flags place (binds.later wf reached)
  | wholeSection flags position => exact .wholeSection flags position
  | table flags index name => exact .table flags index name

theorem recalls (holds : symbols.Holds module entry slot) (recalls : module.Recalls new) :
    symbols.Holds new entry slot := by
  cases holds with
  | symbol name kind flags place binds =>
    exact .symbol (recalls.entryName? name) kind flags place binds
  | wholeSection flags position => exact .wholeSection flags position
  | table flags index name => exact .table flags index name

theorem lt_size (holds : symbols.Holds module entry (.symbol id)) :
    id < symbols.records.size := by
  cases holds with
  | symbol _ _ _ _ binds => exact binds.lt_size

/-- The record at the id has the name and the kind of the entry. -/
theorem exists_record (holds : symbols.Holds module entry (.symbol id)) :
    ∃ record, symbols.records[id]? = some record ∧
      module.entryName? entry = some record.name ∧
      entry.targetKind? = some record.target.kind := by
  cases holds with
  | symbol name kind _ _ binds =>
    obtain ⟨record, found, name', kind'⟩ := binds.record
    exact ⟨record, found, by rw [name, name'], by rw [kind, kind']⟩

/-- The name of an entry that is not private leads to its symbol. -/
theorem lookup (holds : symbols.Holds module entry (.symbol id)) (visible : entry.isLocal = false) :
    ∃ name, module.entryName? entry = some name ∧ symbols.lookup name = some id := by
  cases holds with
  | @symbol _ symbol _ name _ flags _ binds =>
    have shared : symbol.isLocal = false := by
      rw [Symbol.isLocal, flags]
      exact visible
    exact ⟨symbol.name, name, binds.shared shared⟩

/-- No name leads to the symbol of an entry that is private, and its record is what the entry made
it. -/
theorem own (holds : symbols.Holds module entry (.symbol id)) (hidden : entry.isLocal = true) :
    symbols.Private id ∧ ∃ symbol, symbols.records[id]? = some symbol ∧
      symbol.flags = entry.flags ∧ symbol.target.importPlace? = entry.importPlace? := by
  cases holds with
  | @symbol _ symbol _ _ _ flags place binds =>
    have own : symbol.isLocal = true := by
      rw [Symbol.isLocal, flags]
      exact hidden
    obtain ⟨unnamed, found⟩ := binds.own own
    exact ⟨unnamed, symbol, found, flags, place⟩

/-- Entries that are not private lead to one symbol exactly if they go by one name. -/
theorem eq_iff (wf : symbols.WellFormed) {id' : SymbolId}
    (one : symbols.Holds module entry (.symbol id))
    (two : symbols.Holds other entry' (.symbol id')) (visible : entry.isLocal = false)
    (visible' : entry'.isLocal = false) :
    id = id' ↔ module.entryName? entry = other.entryName? entry' := by
  obtain ⟨name, goes, known⟩ := one.lookup visible
  obtain ⟨name', goes', known'⟩ := two.lookup visible'
  rw [goes, goes', Option.some.injEq]
  constructor
  · rintro rfl
    exact wf.lookup_injective known known'
  · rintro rfl
    exact Option.some.inj (known.symm.trans known')

/-- An entry with the symbol of a private entry is private as well. -/
theorem isLocal_of_same (one : symbols.Holds module entry (.symbol id))
    (two : symbols.Holds other entry' (.symbol id)) (hidden : entry.isLocal = true) :
    entry'.isLocal = true := by
  by_contra visible
  obtain ⟨name, -, known⟩ := two.lookup (eq_false_of_ne_true visible)
  exact (one.own hidden).1 name known

end SymbolTable.Holds

/-! ## Private symbols -/

/-- The entries that are private have symbols with ids from `first` on, and no other slot leads to
them. -/
structure OwnIds (first : Nat) (entries : List SymbolEntry) (slots : List Slot) : Prop where
  fresh : ∀ (k : Nat) (entry : SymbolEntry) (id : SymbolId), entries[k]? = some entry →
    entry.isLocal = true → slots[k]? = some (.symbol id) → first ≤ id
  alone : ∀ (k l : Nat) (entry : SymbolEntry) (id : SymbolId), entries[k]? = some entry →
    entry.isLocal = true → slots[k]? = some (.symbol id) → slots[l]? = some (.symbol id) → k = l

/-- An entry more, whose symbol is new if it is private and else not that of a private one. -/
theorem OwnIds.concat {first : Nat} {entries : List SymbolEntry} {slots : List Slot}
    (own : OwnIds first entries slots) (size : entries.length = slots.length)
    {entry : SymbolEntry} {slot : Slot}
    (new : entry.isLocal = true → ∀ id, slot = .symbol id → first ≤ id ∧ slot ∉ slots)
    (old : ∀ (k : Nat) (before : SymbolEntry) (id : SymbolId), entries[k]? = some before →
      before.isLocal = true → slots[k]? = some (.symbol id) → slot ≠ .symbol id) :
    OwnIds first (entries ++ [entry]) (slots ++ [slot]) := by
  constructor
  · intro k found id here hidden there
    rcases getElem?_concat_pair size here there with ⟨here, there⟩ | ⟨rfl, same⟩
    · exact own.fresh k found id here hidden there
    · exact (new hidden id same.symm).1
  · intro k l found id here hidden there other
    have last {position : Nat} (this : (slots ++ [slot])[position]? = some (.symbol id))
        (later : slots.length ≤ position) : position = slots.length ∧ slot = .symbol id := by
      rw [List.getElem?_append_right later, List.getElem?_singleton] at this
      split at this
      · exact ⟨by omega, Option.some.inj this⟩
      · cases this
    rcases Nat.lt_or_ge k slots.length with earlier | behind
    · rw [List.getElem?_append_left earlier] at there
      rw [List.getElem?_append_left (by rw [size]; exact earlier)] at here
      rcases Nat.lt_or_ge l slots.length with earlier' | behind'
      · rw [List.getElem?_append_left earlier'] at other
        exact own.alone k l found id here hidden there other
      · obtain ⟨-, same⟩ := last other behind'
        exact absurd same (old k found id here hidden there)
    · obtain ⟨rfl, same⟩ := last there behind
      rw [← size, List.getElem?_concat_length] at here
      cases here
      rcases Nat.lt_or_ge l slots.length with earlier' | behind'
      · rw [List.getElem?_append_left earlier', ← same] at other
        exact absurd (List.mem_of_getElem? other) (new hidden id same).2
      · exact (last other behind').1.symm

/-! ## One entry -/

namespace Loader

variable {owner : ModuleId} {before after : Loading} {index : UInt32} {entry : SymbolEntry}
  {slot : Slot}

/-- An entry was given this slot. -/
structure Placed (entry : SymbolEntry) (slot : Slot) (before after : Loading) : Prop where
  reached : SymbolTable.ReachedBy (fun _ => True) before.symbols after.symbols
  recalls : before.module.Recalls after.module
  slots : after.module.slots = before.module.slots
  holds : after.symbols.Holds after.module entry slot
  /-- The symbol of a private entry is new. -/
  fresh : entry.isLocal = true → ∀ id, slot = .symbol id → id = before.symbols.records.size
  /-- The import that the entry refers to stands for its symbol now. -/
  imports : ∀ place, (after.module.symbolOf? place).map Slot.symbol =
    if entry.importPlace? = some place then some slot
    else (before.module.symbolOf? place).map Slot.symbol

theorem placed_of_resolve (h : resolve owner index entry before = .ok slot after)
    (wf : before.symbols.WellFormed) : Placed entry slot before after := by
  rcases resolve_cases h with ⟨resolved, rfl⟩ | ⟨name, target, id, resolved, rfl, named, call⟩
  · -- An entry without a symbol changes nothing.
    obtain ⟨-, unnamed, noSymbol⟩ := ObjectModule.means_of_resolve resolved
    have both : after.symbols.Holds after.module entry slot ∧ entry.importPlace? = none := by
      cases ObjectModule.resolve_eq_ok_iff.1 resolved with
      | @wholeSection flags position => exact ⟨.wholeSection flags position, rfl⟩
      | @table flags position name => exact ⟨.table flags position name, rfl⟩
    refine ⟨.refl _ after.symbols, .refl after.module, rfl, both.1,
      fun _ id same => absurd same (noSymbol id), fun place => ?_⟩
    rw [both.2, if_neg (by simp)]
  · obtain ⟨-, ⟨kind, -⟩, -, -⟩ := ObjectModule.means_of_resolve resolved
    obtain ⟨goes, refers, exist⟩ := ObjectModule.entryName?_of_resolve resolved
    have recalls := ObjectModule.recalls_nameImport before.module target id
    rw [← named] at recalls
    obtain ⟨binds, fresh⟩ := SymbolTable.binds_of_register wf call
    refine ⟨.of_register call trivial, recalls, ?_, ?_, ?_, fun place => ?_⟩
    · rw [named]
      exact (nameImport_grows before.module target id).1
    · exact .symbol (recalls.entryName? goes) kind rfl refers.symm binds
    · rintro hidden other ⟨⟩
      exact fresh hidden
    · rw [named, ObjectModule.symbolOf?_nameImport exist, refers]
      split <;> rfl

end Loader

/-! ## The invariant of loading -/

/-- How far the loading of an input has come after some events: its slots are those of the entries
so far, and its imports stand for the symbols of the last entries that refer to them. -/
structure Loading.Slotted (start : SymbolTable) (seen : List Event) (loading : Loading) : Prop where
  reached : SymbolTable.ReachedBy (fun _ => True) start loading.symbols
  holds : List.Forall₂ (loading.symbols.Holds loading.module) (entriesOf seen)
    loading.module.slots.toList
  own : OwnIds start.records.size (entriesOf seen) loading.module.slots.toList
  imports : loading.module.NamesAll (entriesOf seen)

namespace Loading.Slotted

variable {start : SymbolTable} {seen : List Event} {before after : Loading} {event : Event}
  {owner : ModuleId}

/-- Before the first event there are no slots, and the imports stand for nothing. -/
theorem init (symbols : SymbolTable) (name : String) (bytes : Bytes) :
    Loading.Slotted symbols [] { module := { name, bytes }, symbols } where
  reached := .refl _ symbols
  holds := .nil
  own := by
    constructor
    · intro k entry id here
      cases here
    · intro k l entry id here
      cases here
  imports := by rintro (position | position) <;> rfl

variable {entry : SymbolEntry} {slot : Slot}

/-- The slots so far lead where they did when one more entry has its slot. -/
theorem holds_after (slotted : before.Slotted start seen) (wf : start.WellFormed)
    (placed : Loader.Placed entry slot before after) :
    List.Forall₂ (after.symbols.Holds after.module) (entriesOf seen)
      before.module.slots.toList := by
  have wf' := (slotted.reached.later wf).1
  exact slotted.holds.imp fun _ _ holds => (holds.later wf' placed.reached).recalls placed.recalls

/-- The symbol of a private entry that comes next is new. -/
theorem new_of_placed (slotted : before.Slotted start seen) (wf : start.WellFormed)
    (placed : Loader.Placed entry slot before after) (hidden : entry.isLocal = true) {id : SymbolId}
    (leads : slot = .symbol id) :
    start.records.size ≤ id ∧ slot ∉ before.module.slots.toList := by
  obtain rfl := placed.fresh hidden id leads
  refine ⟨(slotted.reached.later wf).2.size_le, fun listed => ?_⟩
  obtain ⟨k, there⟩ := List.mem_iff_getElem?.1 listed
  have small : k < (entriesOf seen).length := by
    rw [slotted.holds.length_eq]
    exact (List.getElem?_eq_some_iff.1 there).1
  rw [leads] at there
  have old := getElem?_of_forall₂ slotted.holds (List.getElem?_eq_getElem small) there
  exact Nat.lt_irrefl _ old.lt_size

/-- The next entry does not lead to the symbol of a private entry. -/
theorem ne_of_placed (slotted : before.Slotted start seen) (wf : start.WellFormed)
    (placed : Loader.Placed entry slot before after) {k : Nat} {found : SymbolEntry} {id : SymbolId}
    (here : (entriesOf seen)[k]? = some found) (hidden : found.isLocal = true)
    (there : before.module.slots.toList[k]? = some (.symbol id)) : slot ≠ .symbol id := by
  intro same
  have old := getElem?_of_forall₂ slotted.holds here there
  have now := getElem?_of_forall₂ (slotted.holds_after wf placed) here there
  -- It would be private as well, and the symbol of such an entry is new.
  have new := placed.holds
  rw [same] at new
  rw [placed.fresh (now.isLocal_of_same new hidden) id same] at old
  exact Nat.lt_irrefl _ old.lt_size

/-- An entry that is accepted has its slot behind the others. -/
theorem concat {index : UInt32} (slotted : before.Slotted start seen) (wf : start.WellFormed)
    (placed : Loader.Placed entry slot before after) :
    Loading.Slotted start (seen ++ [.symbol index entry]) { after with
      module := { after.module with slots := after.module.slots.push slot } } := by
  have size := slotted.holds.length_eq
  have slots : (after.module.slots.push slot).toList = before.module.slots.toList ++ [slot] := by
    rw [Array.toList_push, placed.slots]
  have pushed : after.module.Recalls
      { after.module with slots := after.module.slots.push slot } := fun _ _ here => here
  refine ⟨slotted.reached.trans placed.reached, ?_, ?_, ?_⟩
  · rw [entriesOf_append_symbol, slots]
    exact List.rel_append
      ((slotted.holds_after wf placed).imp fun _ _ holds => holds.recalls pushed)
      (.cons (placed.holds.recalls pushed) .nil)
  · rw [entriesOf_append_symbol, slots]
    exact slotted.own.concat size (fun hidden _ leads => slotted.new_of_placed wf placed hidden leads)
      fun _ _ _ here hidden there => slotted.ne_of_placed wf placed here hidden there
  · intro place
    show (after.module.symbolOf? place).map Slot.symbol = (slotsNaming place _
      (after.module.slots.push slot).toList).getLast?
    rw [entriesOf_append_symbol, slots, slotsNaming_concat size, placed.imports]
    split
    · rw [List.getLast?_concat]
    · rw [List.append_nil]
      exact slotted.imports place

/-- Every event keeps the invariant. -/
theorem note (slotted : before.Slotted start seen) (wf : start.WellFormed)
    (h : Loader.note owner event before = .ok () after) : after.Slotted start (seen ++ [event]) := by
  rcases Loader.note_cases h with ⟨index, entry, slot, middle, rfl, one, rfl⟩ | other
  · exact slotted.concat wf (Loader.placed_of_resolve one (slotted.reached.later wf).1)
  · obtain ⟨symbols, slots, -⟩ := Loader.note_other h other
    obtain ⟨recalls, same⟩ := Loader.note_imports h other
    refine ⟨?_, ?_, ?_, ?_⟩
    · rw [symbols]
      exact slotted.reached
    · rw [entriesOf_append_other seen other, symbols, slots]
      exact slotted.holds.imp fun _ _ holds => holds.recalls recalls
    · rw [entriesOf_append_other seen other, slots]
      exact slotted.own
    · rw [entriesOf_append_other seen other]
      intro place
      rw [same, slots]
      exact slotted.imports place

end Loading.Slotted

/-- The slots of a module that was loaded. -/
theorem ObjectModule.load_slotted {owner : ModuleId} {start symbols : SymbolTable} {name : String}
    {bytes : Bytes} {module : ObjectModule} (wf : start.WellFormed)
    (h : ObjectModule.load owner name bytes start = .ok module symbols) :
    Loading.Slotted start (Transcript.ofBytes bytes).events { module, symbols } := by
  obtain ⟨-, last, events, rfl, rfl⟩ := load_run h
  have slotted : last.Slotted start ([] ++ (Transcript.ofBytes bytes).events) :=
    forM_keeps (fun seen loading => loading.Slotted start seen) events
      (fun seen event before after step slotted => slotted.note wf step) (.init start name bytes)
  exact ⟨slotted.reached, slotted.holds, slotted.own, slotted.imports⟩

end StaticLink
