import StaticLink.Proofs.Inputs.Program
import StaticLink.Proofs.SymbolTable.References

/-!
# Names that inputs define

A definition in any input is enough for its name to be defined in the linked program, whatever the
other inputs say of the name and whether they come before or after.

* `SymbolEntry.definedName?`: the name that an entry of a symbol table defines for all inputs.
* `Session.addAll_defines`, `Program.defines_of_ofInputs`: the names that the inputs define are
  defined.
-/

namespace StaticLink

/-- The name that an entry defines for all inputs, if it does. -/
def SymbolEntry.definedName? : SymbolEntry → Option String
  | .function flags _ name | .global flags _ name =>
    if flags.contains .undefined || flags.contains .localBinding then none else name
  | .data flags name (some _) => if flags.contains .localBinding then none else some name
  | _ => none

/-- The symbols define all names that the entries define. -/
def SymbolTable.DefinesAll (symbols : SymbolTable) (entries : List SymbolEntry) : Prop :=
  ∀ entry ∈ entries, ∀ name, entry.definedName? = some name → symbols.Defines name

variable {entry : SymbolEntry} {entries : List SymbolEntry} {name : String}

theorem SymbolTable.DefinesAll.later {symbols next : SymbolTable}
    (defines : symbols.DefinesAll entries) (later : symbols.Extends next) :
    next.DefinesAll entries :=
  fun entry member name named => (defines entry member name named).later later

/-- An entry that defines a name is not private to its input. -/
theorem SymbolEntry.not_local_of_definedName? (named : entry.definedName? = some name) :
    entry.flags.contains .localBinding = false := by
  unfold definedName? at named
  unfold SymbolEntry.flags
  grind

namespace ObjectModule

/-- An entry that defines a name means a definition of that name. -/
theorem resolve_of_definedName? {module : ObjectModule} {owner : ModuleId} {index : UInt32}
    {meaning : Meaning} (h : module.resolve owner index entry = .ok meaning)
    (named : entry.definedName? = some name) :
    ∃ target, meaning = .named name target ∧ target.isUndefined = false := by
  unfold SymbolEntry.definedName? at named
  cases resolve_eq_ok_iff.1 h with
  | functionReference undefined | globalReference undefined =>
    dsimp only at named
    rw [undefined] at named
    cases named
  | functionDefinition | globalDefinition | dataDefinition =>
    dsimp only at named
    split at named
    · cases named
    · cases named
      exact ⟨_, rfl, rfl⟩
  | dataReference | wholeSection | table | tag => cases named

end ObjectModule

/-! ## One input -/

namespace Loader

variable {owner : ModuleId} {before after : Loading} {index : UInt32} {slot : Slot}

/-- An entry that defines a name defines it in the table. -/
theorem defines_of_resolve (h : resolve owner index entry before = .ok slot after)
    (named : entry.definedName? = some name) : after.symbols.Defines name := by
  have defined {meaning : Meaning}
      (resolved : before.module.resolve owner index entry = .ok meaning) :=
    ObjectModule.resolve_of_definedName? resolved named
  rcases resolve_cases h with ⟨resolved, -⟩ | ⟨_, target, id, resolved, -, -, call⟩
  · obtain ⟨target, impossible, -⟩ := defined resolved
    cases impossible
  obtain ⟨_, same, defined⟩ := defined resolved
  cases same
  have visible : ¬ Symbol.isLocal ⟨name, entry.flags, before.module.name, target⟩ = true := by
    unfold Symbol.isLocal
    rw [SymbolEntry.not_local_of_definedName? named]
    simp
  unfold registration at call
  rw [if_neg visible] at call
  have adds := SymbolTable.adds_of_add_eq_ok call
  refine SymbolTable.defines_of_adds adds ?_
  rw [Symbol.isDefinition, Symbol.isUndefined, defined]
  rfl

variable {modules : List ObjectModule}

/-- Every event keeps the names defined that the entries so far define. -/
theorem definesAll_note {seen : List Event} {event : Event}
    (h : note modules.length event before = .ok () after) (wf : before.symbols.WellFormed)
    (defines : before.symbols.DefinesAll (entriesOf seen)) :
    after.symbols.WellFormed ∧ after.symbols.DefinesAll (entriesOf (seen ++ [event])) := by
  rcases note_cases h with ⟨index, entry, slot, middle, rfl, one, rfl⟩ | other
  · obtain ⟨wf', later⟩ := (resolve_eq_ok one rfl wf).registered.later wf
    refine ⟨wf', ?_⟩
    rw [entriesOf_append_symbol]
    intro other member name named
    rcases List.mem_append.1 member with member | member
    · exact (defines other member name named).later later
    · rw [List.mem_singleton.1 member] at named
      have defines : middle.symbols.Defines name := defines_of_resolve one named
      exact defines
  · obtain ⟨symbols, -⟩ := note_other h other
    rw [symbols, entriesOf_append_other seen other]
    exact ⟨wf, defines⟩

end Loader

/-- The names that an input defines are defined when it is loaded. -/
theorem ObjectModule.load_defines {modules : List ObjectModule} {start symbols : SymbolTable}
    {bytes : Bytes} {module : ObjectModule} (wf : start.WellFormed)
    (h : ObjectModule.load modules.length name bytes start = .ok module symbols) :
    symbols.DefinesAll (symbolEntries bytes) := by
  obtain ⟨-, last, events, -, rfl⟩ := load_run h
  have none : start.DefinesAll (entriesOf []) := by simp [SymbolTable.DefinesAll, entriesOf]
  have defines : last.symbols.WellFormed ∧
      last.symbols.DefinesAll (entriesOf ([] ++ (Transcript.ofBytes bytes).events)) := by
    refine forM_keeps (fun seen loading => loading.symbols.WellFormed ∧
      loading.symbols.DefinesAll (entriesOf seen)) events ?_ ⟨wf, none⟩
    rintro seen event before after step ⟨wf, defines⟩
    exact Loader.definesAll_note step wf defines
  exact defines.2

/-! ## All inputs -/

variable {inputs : List (String × Bytes)}

/-- The names that the inputs of a session define are defined. -/
theorem Session.addAll_defines {after : Session} (h : addAll inputs .empty = .ok () after) :
    ∀ input ∈ inputs, after.symbols.DefinesAll (symbolEntries input.2) := by
  have defines : Session.Sound ([] ++ inputs) after ∧
      ∀ input ∈ [] ++ inputs, after.symbols.DefinesAll (symbolEntries input.2) := by
    refine forM_keeps (fun seen session => Session.Sound seen session ∧
      ∀ input ∈ seen, session.symbols.DefinesAll (symbolEntries input.2)) h ?_ ⟨sound_empty, by simp⟩
    rintro seen ⟨name, bytes⟩ before after step ⟨sound, defines⟩
    have sound' := sound.add step
    refine ⟨sound', ?_⟩
    have wf := (sound.registered.later SymbolTable.wellFormed_empty).1
    obtain ⟨module, loaded, -⟩ := add_eq_ok step
    intro input member
    rcases List.mem_append.1 member with member | member
    · exact (defines input member).later ((ObjectModule.load_sound wf loaded).1.later wf).2
    · rw [List.mem_singleton.1 member]
      exact ObjectModule.load_defines wf loaded
  exact defines.2

/-- The names that the inputs of a program define are defined, since the linker takes no definition
away. -/
theorem Program.defines_of_ofInputs {options : Options} {program : Program}
    (h : ofInputs inputs options = .ok program) :
    ∀ input ∈ inputs, program.symbols.DefinesAll (symbolEntries input.2) := by
  obtain ⟨session, added, decided⟩ := decided_of_ofInputs h
  have wf := ((Session.addAll_sound added).registered.later SymbolTable.wellFormed_empty).1
  have later := ((SymbolTable.reached_of_complete decided.symbols).later wf).2
  exact fun input member => (Session.addAll_defines added input member).later later

end StaticLink
