import StaticLink.Proofs.Grammar.SymbolTables
import StaticLink.Proofs.Inputs.Program
import StaticLink.Proofs.Inputs.Rejection
import StaticLink.Proofs.Inputs.Slots

/-!
# The slots of all inputs

The slots of all inputs lead into one table of symbols. Entries of different inputs that go by one
name lead to one symbol, and an entry that is private has a symbol for itself.

* `EntryLeads`: an entry of an input leads to a symbol.
* `Slotted`: the slots of all inputs are those of their entries; `Session.addAll_slotted`.
* `SlotsLead`: what this means for the entries and imports of the inputs.
* `Session.addAll_slots`: it holds from the moment when an input was added, for whatever inputs come
  after it and whatever the linker adds.
-/

namespace StaticLink

/-! ## All inputs -/

/-- Entry `k` of the symbol table of input `owner` is `entry`, and it leads to symbol `id`. -/
structure EntryLeads (inputs : List (String × Bytes)) (modules : List ObjectModule)
    (owner : ModuleId) (k : Nat) (module : ObjectModule) (entry : SymbolEntry) (id : SymbolId) :
    Prop where
  entry : ∃ name bytes, inputs[owner]? = some (name, bytes) ∧
    (symbolEntries bytes)[k]? = some entry
  input : modules[owner]? = some module
  slot : module.slots[k]? = some (.symbol id)

/-- The slots of all inputs are those of their entries, and the imports stand for the symbols of the
last entries that refer to them. -/
structure Slotted (inputs : List (String × Bytes)) (modules : List ObjectModule)
    (symbols : SymbolTable) : Prop where
  holds : ∀ (owner : ModuleId) (name : String) (bytes : Bytes) (module : ObjectModule),
    inputs[owner]? = some (name, bytes) → modules[owner]? = some module →
    List.Forall₂ (symbols.Holds module) (symbolEntries bytes) module.slots.toList
  imports : ∀ (owner : ModuleId) (name : String) (bytes : Bytes) (module : ObjectModule),
    inputs[owner]? = some (name, bytes) → modules[owner]? = some module →
    module.NamesAll (symbolEntries bytes)
  /-- No other entry leads to the symbol of a private one. -/
  alone : ∀ (owner other : ModuleId) (k l : Nat) (module module' : ObjectModule)
    (entry entry' : SymbolEntry) (id : SymbolId),
    EntryLeads inputs modules owner k module entry id →
    EntryLeads inputs modules other l module' entry' id → entry.isLocal = true →
    owner = other ∧ k = l

variable {inputs : List (String × Bytes)} {modules : List ObjectModule} {symbols : SymbolTable}
  {owner : ModuleId} {k : Nat} {module : ObjectModule} {entry : SymbolEntry} {id : SymbolId}
  {name : String} {bytes : Bytes}

/-- What the entry of an input leads to. -/
theorem Slotted.holds_of_leads (slotted : Slotted inputs modules symbols)
    (leads : EntryLeads inputs modules owner k module entry id) :
    symbols.Holds module entry (.symbol id) := by
  obtain ⟨⟨name, bytes, file, here⟩, input, there⟩ := leads
  have all := slotted.holds owner name bytes module file input
  exact getElem?_of_forall₂ all here (by rw [Array.getElem?_toList, there])

/-- The slots lead there from then on. -/
theorem Slotted.later {next : SymbolTable} {P : Target → Prop}
    (slotted : Slotted inputs modules symbols) (wf : symbols.WellFormed)
    (reached : SymbolTable.ReachedBy P symbols next) : Slotted inputs modules next where
  holds := fun owner name bytes module file input =>
    (slotted.holds owner name bytes module file input).imp fun _ _ holds => holds.later wf reached
  imports := slotted.imports
  alone := slotted.alone

/-- Where there is one more input, an entry is one of those before or one of this input. -/
theorem EntryLeads.of_concat {new : ObjectModule} (size : modules.length = inputs.length)
    (leads : EntryLeads (inputs ++ [(name, bytes)]) (modules ++ [new]) owner k module entry id) :
    EntryLeads inputs modules owner k module entry id ∨
      owner = modules.length ∧ module = new ∧ (symbolEntries bytes)[k]? = some entry := by
  obtain ⟨⟨name', bytes', file, here⟩, input, slot⟩ := leads
  by_cases earlier : owner < modules.length
  · rw [List.getElem?_append_left earlier] at input
    rw [List.getElem?_append_left (by rw [← size]; exact earlier)] at file
    exact .inl ⟨⟨name', bytes', file, here⟩, input, slot⟩
  · have last : owner = modules.length := by
      have small := (List.getElem?_eq_some_iff.1 input).1
      rw [List.length_append, List.length_singleton] at small
      exact Nat.le_antisymm (Nat.le_of_lt_succ small) (Nat.le_of_not_lt earlier)
    subst last
    rw [List.getElem?_concat_length] at input
    rw [size, List.getElem?_concat_length] at file
    cases input
    cases file
    exact .inr ⟨rfl, rfl, here⟩

namespace Session

variable {before after last : Session}

theorem slotted_empty : Slotted [] [] .empty where
  holds := by simp
  imports := by simp
  alone := by
    intro owner other k l module module' entry entry' id leads
    cases leads.input

theorem Sound.slotted (sound : Sound inputs before)
    (slotted : Slotted inputs before.modules before.symbols)
    (h : discard (Session.add name bytes) before = .ok () after) :
    Slotted (inputs ++ [(name, bytes)]) after.modules after.symbols := by
  obtain ⟨new, loaded, modules⟩ := add_eq_ok h
  have wf := (sound.registered.later SymbolTable.wellFormed_empty).1
  have fresh := ObjectModule.load_slotted wf loaded
  have leads {entry : SymbolEntry} {id : SymbolId} {k : Nat}
      (here : (symbolEntries bytes)[k]? = some entry) (there : new.slots[k]? = some (.symbol id)) :
      after.symbols.Holds new entry (.symbol id) :=
    getElem?_of_forall₂ fresh.holds here (by rw [Array.getElem?_toList, there])
  rw [modules]
  refine ⟨?_, ?_, ?_⟩
  · intro other name' bytes' module input here
    rcases getElem?_concat_pair sound.size here input with ⟨stands, earlier⟩ | ⟨rfl, same⟩
    · exact (slotted.holds other name' bytes' module earlier stands).imp
        fun _ _ holds => holds.later wf fresh.reached
    · cases same
      exact fresh.holds
  · intro other name' bytes' module input here
    rcases getElem?_concat_pair sound.size here input with ⟨stands, earlier⟩ | ⟨rfl, same⟩
    · exact slotted.imports other name' bytes' module earlier stands
    · cases same
      exact fresh.imports
  · intro owner other k l module module' entry entry' id one two hidden
    have slot := one.slot
    have slot' := two.slot
    rcases one.of_concat sound.size with one | ⟨rfl, rfl, here⟩
    · have old := slotted.holds_of_leads one
      rcases two.of_concat sound.size with two | ⟨-, rfl, here'⟩
      · exact slotted.alone owner other k l module module' entry entry' id one two hidden
      · -- The new entry would be private, with a symbol that was there before.
        have hidden' := (old.later wf fresh.reached).isLocal_of_same (leads here' slot') hidden
        have new := fresh.own.fresh l entry' id here' hidden'
          (by rw [Array.getElem?_toList]; exact slot')
        exact absurd old.lt_size (Nat.not_lt_of_le new)
    · have new := fresh.own.fresh k entry id here hidden
        (by rw [Array.getElem?_toList]; exact slot)
      rcases two.of_concat sound.size with two | ⟨rfl, rfl, here'⟩
      · exact absurd (slotted.holds_of_leads two).lt_size (Nat.not_lt_of_le new)
      · exact ⟨rfl, fresh.own.alone k l entry id here hidden
          (by rw [Array.getElem?_toList]; exact slot)
          (by rw [Array.getElem?_toList]; exact slot')⟩

/-- The slots of all inputs that were added. -/
theorem addAll_slotted (h : addAll inputs .empty = .ok () after) :
    Sound inputs after ∧ Slotted inputs after.modules after.symbols := by
  have both : Sound ([] ++ inputs) after ∧ Slotted ([] ++ inputs) after.modules after.symbols := by
    refine forM_keeps (fun seen session => Sound seen session ∧
      Slotted seen session.modules session.symbols) h ?_ ⟨sound_empty, slotted_empty⟩
    rintro seen ⟨name, bytes⟩ before after step ⟨sound, slotted⟩
    exact ⟨sound.add step, sound.slotted slotted step⟩
  exact both

/-- More inputs leave the modules of those before. -/
theorem prefix_of_addAll (h : addAll inputs before = .ok () after) :
    before.modules <+: after.modules := by
  refine forM_preserves (fun session => before.modules <+: session.modules) h ?_ List.prefix_rfl
  rintro ⟨name, bytes⟩ middle next step grown
  obtain ⟨module, -, modules⟩ := add_eq_ok step
  rw [modules]
  exact grown.trans (List.prefix_append _ _)

end Session

/-! ## What slots lead to -/

/-- What the slots of some inputs lead to. The entries of an input are those of the symbol tables in
its file, and each of them has the slot at its position. -/
structure SlotsLead (inputs : List (String × Bytes)) (modules : List ObjectModule)
    (symbols : SymbolTable) : Prop extends Slotted inputs modules symbols where
  size : modules.length = inputs.length
  file : ∀ (owner : ModuleId) (name : String) (bytes : Bytes), inputs[owner]? = some (name, bytes) →
    ∃ tree : Grammar.Module, tree.bytes = bytes ∧
      symbolEntries bytes = tree.symbolTables.flatten
  /-- An entry leads to a record of its name and kind. -/
  record : ∀ (owner : ModuleId) (k : Nat) (module : ObjectModule) (entry : SymbolEntry)
    (id : SymbolId), EntryLeads inputs modules owner k module entry id →
    ∃ record, symbols.records[id]? = some record ∧ module.entryName? entry = some record.name ∧
      entry.targetKind? = some record.target.kind
  /-- Entries that are not private lead to one symbol exactly if they go by one name. -/
  shared : ∀ (owner other : ModuleId) (k l : Nat) (module module' : ObjectModule)
    (entry entry' : SymbolEntry) (id id' : SymbolId),
    EntryLeads inputs modules owner k module entry id →
    EntryLeads inputs modules other l module' entry' id' →
    entry.isLocal = false → entry'.isLocal = false →
    (id = id' ↔ module.entryName? entry = module'.entryName? entry')
  /-- No name leads to the symbol of a private entry. -/
  unnamed : ∀ (owner : ModuleId) (k : Nat) (module : ObjectModule) (entry : SymbolEntry)
    (id : SymbolId), EntryLeads inputs modules owner k module entry id → entry.isLocal = true →
    ∀ name, symbols.lookup name ≠ some id

/-- The file of an input that was loaded is one with symbol tables of these entries. -/
theorem exists_tree {owner : ModuleId} {start symbols : SymbolTable} {module : ObjectModule}
    (h : ObjectModule.load owner name bytes start = .ok module symbols) :
    ∃ tree : Grammar.Module, tree.bytes = bytes ∧
      symbolEntries bytes = tree.symbolTables.flatten := by
  obtain ⟨tree, rfl⟩ := Transcript.exists_module_of_fault (ObjectModule.load_run h).1
  exact ⟨tree, rfl, tree.symbolEntries_bytes⟩

namespace Session

variable {before after last : Session}

theorem exists_tree_of_addAll (h : addAll inputs before = .ok () after)
    (member : (name, bytes) ∈ inputs) :
    ∃ tree : Grammar.Module, tree.bytes = bytes ∧
      symbolEntries bytes = tree.symbolTables.flatten := by
  induction inputs generalizing before with
  | nil => cases member
  | cons input rest ih =>
    obtain ⟨⟨⟩, middle, one, others⟩ := state_bind_eq_ok.1 h
    rcases List.mem_cons.1 member with rfl | member
    · obtain ⟨module, loaded, -⟩ := add_eq_ok one
      exact exists_tree loaded
    · exact ih others member

/-- From the moment when some inputs were added, their slots lead to symbols of the names and kinds
of their entries: after all inputs that are added later, and in all that the linker makes of the
table. -/
theorem addAll_slots (added : addAll inputs .empty = .ok () after) :
    (∀ more last, addAll more after = .ok () last → after.modules <+: last.modules ∧
      ∀ symbols, SymbolTable.ReachedBy SymbolTable.Supplied last.symbols symbols →
        SlotsLead (inputs ++ more) last.modules symbols) ∧
    ∀ modules layout stackTop symbols,
      after.symbols.complete modules layout stackTop = .ok symbols →
        SymbolTable.ReachedBy SymbolTable.Supplied after.symbols symbols := by
  refine ⟨fun more last later => ⟨prefix_of_addAll later, fun symbols reached => ?_⟩,
    fun modules layout stackTop symbols => SymbolTable.reached_of_complete⟩
  have all := (addAll_append added).trans later
  obtain ⟨sound, slotted⟩ := addAll_slotted all
  have wf := (sound.registered.later SymbolTable.wellFormed_empty).1
  have wf' := (reached.later wf).1
  have slotted := slotted.later wf reached
  exact {
    slotted with
    size := sound.size
    file := fun owner name bytes file => exists_tree_of_addAll all (List.mem_of_getElem? file)
    record := fun owner k module entry id leads => (slotted.holds_of_leads leads).exists_record
    shared := fun owner other k l module module' entry entry' id id' one two =>
      (slotted.holds_of_leads one).eq_iff wf' (slotted.holds_of_leads two)
    unnamed := fun owner k module entry id leads hidden =>
      ((slotted.holds_of_leads leads).own hidden).1 }

/-- An input that defines the function which `importer` imports, and that has a private function of
the same name as the one which `importer` defines. -/
def namesake : String × Bytes :=
  ("namesake.o",
    [0, 97, 115, 109, 1, 0, 0, 0, 1, 4, 1, 96, 0, 0, 3, 3, 2, 0, 0, 10, 7, 2, 2, 0, 11, 2, 0, 11,
     0, 22, 7, 108, 105, 110, 107, 105, 110, 103, 2, 8, 11, 2, 0, 2, 0, 1, 103, 0, 0, 1, 1, 102])

/-- The slots of the first input lead to what the second one defines, which comes after it. -/
theorem addAll_slots_namesake :
    ∃ after last, addAll [importer] .empty = .ok () after ∧
      addAll [namesake] after = .ok () last ∧ after.modules <+: last.modules ∧
      SlotsLead [importer, namesake] last.modules last.symbols ∧
      last.modules.map (·.slots) = [#[.symbol 0, .symbol 1], #[.symbol 2, .symbol 0]] := by
  have facts : ((Program.ofInputs [importer, namesake] {}).map fun program =>
      program.modules.map (·.slots)) =
        .ok [#[.symbol 0, .symbol 1], #[.symbol 2, .symbol 0]] := by decide +kernel
  rcases decided : Program.ofInputs [importer, namesake] {} with error | program
  · rw [decided] at facts
    cases facts
  · rw [decided] at facts
    obtain ⟨last, both, decided⟩ := Program.decided_of_ofInputs decided
    obtain ⟨⟨⟩, after, one, later⟩ := state_bind_eq_ok.1 both
    have added : addAll [importer] .empty = .ok () after := state_bind_eq_ok.2 ⟨(), after, one, rfl⟩
    obtain ⟨grown, slots⟩ := (addAll_slots added).1 [namesake] last later
    refine ⟨after, last, added, later, grown, slots last.symbols (.refl _ last.symbols), ?_⟩
    rw [decided.modules]
    exact Except.ok.inj facts

end Session

end StaticLink
