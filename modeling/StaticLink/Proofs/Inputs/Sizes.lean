import StaticLink.Proofs.Inputs.Contents
import StaticLink.Proofs.Inputs.Program
import StaticLink.Proofs.Numbering
import StaticLink.Proofs.Scan.Placement
import StaticLink.Proofs.SymbolTable.Count

/-!
# The size of what is read

Whatever a program has of its inputs was noted once in a file, so that it is no more than the files
have bytes.

* `totalSize`: the bytes of all inputs together.
* `Session.Measured`: each module has what its file says, and together with the symbols they have
  no more than the files have bytes.
* `Session.addAll_measured`: it holds of the session of some inputs.
-/

namespace StaticLink

/-- How many bytes the inputs have together. -/
def totalSize : (inputs : List (String × Bytes)) → Nat
  | [] => 0
  | (_, bytes) :: rest => bytes.length + totalSize rest

theorem totalSize_append (inputs : List (String × Bytes)) (name : String) (bytes : Bytes) :
    totalSize (inputs ++ [(name, bytes)]) = totalSize inputs + bytes.length := by
  induction inputs with
  | nil => simp [totalSize]
  | cons input rest ih =>
    rw [List.cons_append, totalSize, totalSize, ih]
    omega

/-- How many functions and globals there are among the symbols. -/
def SymbolTable.linked (table : SymbolTable) : Nat :=
  (table.idsOf .function).length + (table.idsOf .global).length

namespace ObjectModule

/-- The bytes of the sections that are not looked into. -/
def unread (module : ObjectModule) : Nat :=
  (module.sections.toList.map fun found => found.header.unread).sum

/-- How many functions, globals, data segments, names of functions and table entries a module has,
and the bytes of the sections that are not looked into. -/
def weight (module : ObjectModule) : Nat :=
  module.functions.size + module.globals.size + module.dataSegments.size +
    module.functionNames.size + module.elementCount + module.unread

theorem functions_size_le_weight (module : ObjectModule) :
    module.functions.size ≤ module.weight := by
  unfold weight
  omega

theorem globals_size_le_weight (module : ObjectModule) :
    module.globals.size ≤ module.weight := by
  unfold weight
  omega

theorem dataSegments_size_le_weight (module : ObjectModule) :
    module.dataSegments.size ≤ module.weight := by
  unfold weight
  omega

theorem elementCount_le_weight (module : ObjectModule) : module.elementCount ≤ module.weight := by
  unfold weight
  omega

theorem unread_le_weight (module : ObjectModule) : module.unread ≤ module.weight :=
  Nat.le_add_left _ _

/-- A module that is what its file says. -/
structure IsFile (file : Bytes) (module : ObjectModule) : Prop where
  fault : (Transcript.ofBytes file).fault = none
  bytes : module.bytes = file
  mirrors : module.Mirrors (Transcript.ofBytes file).events

variable {module : ObjectModule} {events : List Event}

/-- Each event says one thing at most, apart from the functions that it lists and the bytes of a
section that is not looked into. -/
theorem picks_le_weight (events : List Event) :
    (events.filterMap Event.functionType?).length + (events.filterMap Event.globalType?).length +
        (events.filterMap Event.dataSpan?).length + (events.filterMap Event.functionName?).length +
        (entriesOf events).length + ((events.filterMap Event.elements?).map List.length).sum +
        ((events.filterMap Event.header?).map SectionHeader.unread).sum ≤
      (events.map Event.weight).sum := by
  unfold entriesOf
  induction events with
  | nil => exact Nat.le_refl 0
  | cons event rest ih =>
    cases event <;>
      simp only [List.filterMap_cons, List.length_cons, List.map_cons, List.sum_cons, Event.weight,
        Event.functionType?, Event.globalType?, Event.dataSpan?, Event.functionName?,
        Event.elements?, Event.header?, Option.elim_some, Option.elim_none] <;> omega

theorem Mirrors.weight_le (mirrors : module.Mirrors events) :
    module.weight + (entriesOf events).length ≤ (events.map Event.weight).sum := by
  have few := picks_le_weight events
  have functions := congrArg List.length mirrors.functions
  have globals := congrArg List.length mirrors.globals
  have data := congrArg List.length mirrors.data
  have names := congrArg List.length mirrors.names
  have elements : module.elementCount = ((events.filterMap Event.elements?).map List.length).sum := by
    rw [elementCount, List.length_flatMap, ← mirrors.elements, List.map_map]
    rfl
  have unread : module.unread = ((events.filterMap Event.header?).map SectionHeader.unread).sum := by
    rw [ObjectModule.unread, ← mirrors.headers, List.map_map]
    rfl
  rw [Array.length_toList] at functions globals names
  rw [List.length_map, Array.length_toList] at data
  unfold weight
  omega

end ObjectModule

namespace Loader

variable {owner : ModuleId} {before after : Loading} {event : Event} {events : List Event}

/-- An entry gives at most one symbol more. -/
theorem linked_resolve {index : UInt32} {entry : SymbolEntry} {slot : Slot}
    (h : resolve owner index entry before = .ok slot after) :
    after.symbols.linked ≤ before.symbols.linked + 1 := by
  rcases resolve_cases h with ⟨-, rfl⟩ | ⟨name, target, id, -, -, -, call⟩
  · exact Nat.le_add_right _ _
  · have functions := SymbolTable.length_idsOf_register .function call
    have globals := SymbolTable.length_idsOf_register .global call
    -- A symbol is of one kind, so that only one of the two counts can grow.
    unfold SymbolTable.linked
    rw [symbol_registration] at functions globals
    dsimp only at functions globals ⊢
    generalize target.kind = kind at functions globals
    cases kind with
    | function =>
      rw [if_pos rfl] at functions
      rw [if_neg (by decide)] at globals
      omega
    | global =>
      rw [if_neg (by decide)] at functions
      rw [if_pos rfl] at globals
      omega
    | data =>
      rw [if_neg (by decide)] at functions globals
      omega

/-- Only entries of the symbol table give symbols. -/
theorem linked_note {events : List Event} {start : Nat}
    (h : note owner event before = .ok () after)
    (few : before.symbols.linked ≤ start + (entriesOf events).length) :
    after.symbols.linked ≤ start + (entriesOf (events ++ [event])).length := by
  rcases note_cases h with ⟨index, entry, slot, middle, rfl, one, rfl⟩ | other
  · have more := linked_resolve one
    rw [entriesOf_append_symbol, List.length_append, List.length_singleton]
    exact Nat.le_trans more (by omega)
  · obtain ⟨symbols, -⟩ := note_other h other
    rw [symbols, entriesOf_append_other events other]
    exact few

end Loader

namespace ObjectModule

/-- A module that was loaded is what its file says, and it and its symbols have no more than the
file has bytes after its magic bytes. -/
theorem load_measured {owner : ModuleId} {name : String} {bytes : Bytes}
    {start symbols : SymbolTable} {module : ObjectModule}
    (h : ObjectModule.load owner name bytes start = .ok module symbols) :
    module.IsFile bytes ∧ module.weight + symbols.linked + 4 ≤ start.linked + bytes.length := by
  obtain ⟨fault, file, mirrors⟩ := load_mirrors h
  refine ⟨⟨fault, file, mirrors⟩, ?_⟩
  have weight := mirrors.weight_le
  have whole : Transcript.ofBytes bytes = ⟨(Transcript.ofBytes bytes).events, none⟩ := by
    rw [← fault]
  have room := (Transcript.laidOut_of_ofBytes whole).room
  have registered : symbols.linked ≤
      start.linked + (entriesOf (Transcript.ofBytes bytes).events).length := by
    obtain ⟨-, last, events, -, rfl⟩ := load_run h
    have none : start.linked ≤ start.linked + (entriesOf []).length := Nat.le_refl _
    refine forM_keeps (fun seen loading => loading.symbols.linked ≤
      start.linked + (entriesOf seen).length) events ?_ none
    intro seen event before after step few
    exact Loader.linked_note step few
  omega

end ObjectModule

/-- Each module of the session is what the file of its input says, and with the symbols the modules
have no more than the files have bytes. -/
structure Session.Measured (inputs : List (String × Bytes)) (session : Session) : Prop where
  size : session.modules.length = inputs.length
  each : ∀ (owner : ModuleId) (name : String) (bytes : Bytes) (module : ObjectModule),
    inputs[owner]? = some (name, bytes) → session.modules[owner]? = some module →
    module.IsFile bytes
  few : countAll (·.weight) session.modules + session.symbols.linked + 4 * inputs.length ≤
    totalSize inputs

namespace Session

variable {inputs : List (String × Bytes)} {before after : Session} {name : String} {bytes : Bytes}

theorem Measured.add (measured : Measured inputs before)
    (h : discard (Session.add name bytes) before = .ok () after) :
    Measured (inputs ++ [(name, bytes)]) after := by
  obtain ⟨module, loaded, modules⟩ := add_eq_ok h
  obtain ⟨file, few⟩ := ObjectModule.load_measured loaded
  refine ⟨?_, ?_, ?_⟩
  · rw [modules, List.length_append, List.length_append, measured.size]
    rfl
  · intro other name' bytes' found input here
    rw [modules] at here
    rcases getElem?_concat_pair measured.size here input with ⟨stands, earlier⟩ | ⟨rfl, same⟩
    · exact measured.each other name' bytes' found earlier stands
    · cases same
      exact file
  · have earlier := measured.few
    rw [modules, countAll_append, totalSize_append, List.length_append, List.length_singleton]
    omega

/-- The session of some inputs of which none is refused. -/
theorem addAll_measured (h : addAll inputs .empty = .ok () after) : Measured inputs after := by
  have measured : Measured ([] ++ inputs) after := by
    refine forM_keeps Measured h ?_ ⟨rfl, by simp, Nat.le_refl _⟩
    rintro seen ⟨name, bytes⟩ before after step measured
    exact measured.add step
  rw [List.nil_append] at measured
  exact measured

end Session

/-- Few inputs have few things: an input has four bytes that hold nothing. -/
theorem Session.Measured.lt_wordLimit {inputs : List (String × Bytes)} {session : Session}
    {number : Nat} (measured : session.Measured inputs) (small : totalSize inputs < wordLimit)
    (le : number ≤ countAll (·.weight) session.modules + 1) : number < wordLimit := by
  have few := measured.few
  rcases Nat.eq_zero_or_pos inputs.length with none | some
  · have limit : 1 < wordLimit := by decide
    have empty := List.length_eq_zero_iff.1 none
    subst empty
    have nothing : totalSize [] = 0 := rfl
    omega
  · omega

/-- Each module of the program is what the file of its input says. With the symbols the modules have
few more than the files have bytes, since the linker adds two at most. -/
structure Program.Measured (inputs : List (String × Bytes)) (program : Program) : Prop where
  size : program.modules.length = inputs.length
  each : ∀ (owner : ModuleId) (name : String) (bytes : Bytes) (module : ObjectModule),
    inputs[owner]? = some (name, bytes) → program.modules[owner]? = some module →
    module.IsFile bytes
  few : countAll (·.weight) program.modules + program.symbols.linked + 4 * inputs.length ≤
    totalSize inputs + 2

theorem Program.measured_of_ofInputs {inputs : List (String × Bytes)} {options : Options}
    {program : Program} (h : ofInputs inputs options = .ok program) :
    program.Measured inputs := by
  obtain ⟨session, added, decided⟩ := decided_of_ofInputs h
  have wf := ((Session.addAll_sound added).registered.later SymbolTable.wellFormed_empty).1
  have function : Target.Kind.function ≠ .data := by decide
  have global : Target.Kind.global ≠ .data := by decide
  have functions := SymbolTable.length_idsOf_complete wf decided.symbols function
  have globals := SymbolTable.length_idsOf_complete wf decided.symbols global
  obtain ⟨size, each, few⟩ := Session.addAll_measured added
  rw [decided.modules] at size each few
  refine ⟨size, each, ?_⟩
  unfold SymbolTable.linked at few ⊢
  omega

/-- Few inputs have few things: an input has four bytes that hold nothing, which make up for what the
linker adds, the memory included. -/
theorem Program.Measured.lt_wordLimit {inputs : List (String × Bytes)} {program : Program}
    {number : Nat} (measured : program.Measured inputs) (small : totalSize inputs < wordLimit)
    (le : number ≤ countAll (·.weight) program.modules + program.symbols.linked + 1) :
    number < wordLimit := by
  have few := measured.few
  rcases Nat.eq_zero_or_pos inputs.length with none | some
  · have limit : 3 < wordLimit := by decide
    have empty := List.length_eq_zero_iff.1 none
    subst empty
    have nothing : totalSize [] = 0 := rfl
    omega
  · omega

end StaticLink
