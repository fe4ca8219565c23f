import StaticLink.Proofs.Output.Readable
import StaticLink.Proofs.Program.Exports

/-!
# Reading a linked module back

A linked module is read without a fault, and what is read of it is what the linker had. A section is
left out only if it has nothing to show.

* `Program.entryCount`: how many entries a section has.
* `Program.ReadsBack`: a reader finds the sections of a program in their order, and what the program
  has in them.
* `link_readBack`: a linked module is read back.
-/

namespace StaticLink

open Scanner (Finds)

namespace Program

/-- How many entries a section of the linked module has, as far as entries are read. -/
def entryCount (program : Program) (interface : Interface) : SectionId → Nat
  | .imports => program.importCount
  | .functions => program.functionCount
  | .tables | .memories => 1
  | .globals => program.globalCount
  | .exports => interface.exports.length
  | .start => interface.start.toList.length
  | .elements => program.elementCount
  | .data => program.layout.segments.length
  | .custom => interface.functionNames.toList.length
  | .types | .code | .dataCount => 0

variable {program : Program} {interface : Interface} {contents : SectionId → Option Bytes}
  {output : Bytes} {inputs : List (String × Bytes)}

namespace Written

variable (written : program.Written interface contents output)
include written

/-! ## Sections that are left out -/

/-- A section of counted entries is left out if there are none. -/
theorem count_eq_zero {id : SectionId} {count : Nat} {entries : Except Error Bytes}
    (vector : program.sectionContents interface id = vectorContents (.ofNat count) entries)
    (small : count < wordLimit) (none : contents id = none) : count = 0 := by
  have made := written.made id
  rw [vector, none] at made
  rcases vectorContents_eq_ok made with ⟨zero, -⟩ | ⟨-, bytes, -, some⟩
  · rw [← UInt32.toNat_ofNat_of_lt' small, zero]
    rfl
  · cases some

theorem entryCount_eq_zero {id : SectionId} (none : contents id = none)
    (small : id ≠ .elements → program.entryCount interface id < wordLimit) :
    program.entryCount interface id = 0 := by
  have one : 1 < wordLimit := by decide
  cases id with
  | imports => exact written.count_eq_zero rfl (small (by decide)) none
  | functions => exact written.count_eq_zero rfl (small (by decide)) none
  | tables => exact written.count_eq_zero rfl one none
  | memories => exact written.count_eq_zero rfl one none
  | globals => exact written.count_eq_zero rfl (small (by decide)) none
  | exports => exact written.count_eq_zero rfl (small (by decide)) none
  | data => exact written.count_eq_zero rfl (small (by decide)) none
  | elements =>
    -- All entries are in one segment, however many they are.
    have few : program.elementSegmentCount < wordLimit := by
      unfold elementSegmentCount
      split <;> decide
    have zero := written.count_eq_zero rfl few none
    unfold elementSegmentCount at zero
    split at zero
    · next empty => exact empty
    · cases zero
  | start =>
    have made := Except.ok.inj (written.made .start)
    rw [none, Option.map_eq_none_iff] at made
    show interface.start.toList.length = 0
    rw [made]
    rfl
  | custom =>
    have made := Except.ok.inj (written.made .custom)
    rw [none, Option.map_eq_none_iff] at made
    show interface.functionNames.toList.length = 0
    rw [made]
    rfl
  | types | code | dataCount => rfl

theorem importsIn_eq (small : program.importCount < wordLimit) :
    program.importsIn contents = program.imports := by
  unfold importsIn
  rcases here : contents .imports with _ | bytes
  · have zero := written.count_eq_zero rfl small here
    unfold importCount at zero
    have functions := List.length_eq_zero_iff.1 (Nat.eq_zero_of_add_eq_zero_right zero)
    have globals := List.length_eq_zero_iff.1 (Nat.eq_zero_of_add_eq_zero_left zero)
    show (⟨[], []⟩ : Imports) = program.imports
    rw [← functions, ← globals]
  · rfl

end Written

/-- Few inputs have few entries. -/
theorem entryCount_lt {session : Session} {base : Nat} {options : Options}
    (measured : program.Measured inputs) (wf : program.symbols.WellFormed)
    (parts : program.Decided session base) (shown : program.interface options = .ok interface)
    (small : totalSize inputs < wordLimit) {id : SectionId} (other : id ≠ .elements) :
    program.entryCount interface id < wordLimit := by
  obtain ⟨-, functions, globals⟩ := imports_facts parts.imports
  have functions' := SymbolTable.strongFunctions_add_synthetic_le wf
  have globals' := SymbolTable.strongGlobals_add_synthetic_le wf
  have kept (field : ObjectModule → Nat) (le : ∀ module, field module ≤ module.weight) :
      countAll field program.modules ≤ countAll (·.weight) program.modules :=
    countAll_le fun module _ => le module
  refine measured.lt_wordLimit small ?_
  unfold SymbolTable.linked
  cases id with
  | imports =>
    show program.imports.functions.length + program.imports.globals.length ≤ _
    omega
  | functions =>
    have own := kept (·.functions.size) ObjectModule.functions_size_le_weight
    show program.symbols.syntheticFunctions.length + _ ≤ _
    omega
  | globals =>
    have own := kept (·.globals.size) ObjectModule.globals_size_le_weight
    have supplied : program.syntheticGlobals.length ≤ program.symbols.syntheticGlobals.length :=
      List.length_filterMap_le _ _
    show program.syntheticGlobals.length + _ ≤ _
    omega
  | exports =>
    have few := length_exports_le wf (exports_of_interface shown)
    unfold SymbolTable.linked at few
    show interface.exports.length ≤ _
    omega
  | data =>
    have own := kept (·.dataSegments.size) ObjectModule.dataSegments_size_le_weight
    have few := (DataLayout.placed_of_ofModules parts.layout).length_le
    show program.layout.segments.length ≤ _
    omega
  | start =>
    show interface.start.toList.length ≤ _
    cases interface.start <;> simp
  | custom =>
    show interface.functionNames.toList.length ≤ _
    cases interface.functionNames <;> simp
  | elements => exact absurd rfl other
  | tables | memories => exact Nat.le_add_left _ _
  | types | code | dataCount => exact Nat.zero_le _

/-- A reader of the linked module `output` finds these sections: those of the program in their
order, of which none but the last has a name. In each of them it finds what the program has there. -/
structure ReadsBack (program : Program) (interface : Interface)
    (contents : SectionId → Option Bytes) (output : Bytes)
    (sections : List (SectionHeader × List Event)) : Prop where
  transcript : Transcript.ofBytes output = ⟨eventsOf sections, none⟩
  order : sections.map (fun piece => (piece.1.id, piece.1.name)) =
    (SectionId.outputOrder.filter fun id => (contents id).isSome).map fun id => (id, id.givenName)
  events : ∀ piece ∈ sections, program.Reexposes interface contents piece.1.id output piece.2

/-- The sections of the linked module are read in their order. -/
theorem Written.exists_sections (written : program.Written interface contents output)
    (measured : program.Measured inputs) {base : Nat}
    (placed : program.layout.Placed program.modules base)
    (single : ∀ input ∈ inputs, (Transcript.ofBytes input.2).SingleGlobals)
    (keeps : ∀ input ∈ inputs, (Transcript.ofBytes input.2).KeepsGlobals) :
    ∃ sections, Transcript.ofBytes output = ⟨eventsOf sections, none⟩ ∧
      List.Forall₂ (fun id => Finds (program.Reexposes interface contents) output id (contents id))
        (SectionId.outputOrder.filter fun id => (contents id).isSome) sections := by
  have read := Transcript.ofBytes_moduleBytes (written.crosses measured placed single keeps _)
  rw [← written.bytes] at read
  exact read

theorem order_of_finds {ids : List SectionId} {sections : List (SectionHeader × List Event)}
    (finds : List.Forall₂ (fun id =>
      Finds (program.Reexposes interface contents) output id (contents id)) ids sections) :
    sections.map (fun piece => (piece.1.id, piece.1.name)) = ids.map (fun id => (id, id.givenName)) ∧
      (∀ piece ∈ sections, program.Reexposes interface contents piece.1.id output piece.2) ∧
      ∀ piece ∈ sections, IsSection output piece.1 piece.2 := by
  induction finds with
  | nil => exact ⟨rfl, by simp, by simp⟩
  | cons found _ ih =>
    obtain ⟨order, events, each⟩ := ih
    refine ⟨?_, List.forall_mem_cons.2 ⟨?_, events⟩, List.forall_mem_cons.2 ⟨found.read, each⟩⟩
    · rw [List.map_cons, List.map_cons, order, found.opening, found.named]
    · rw [found.opening]
      exact found.entries

end Program

/-- A linked module is read without a fault. Its sections are in their order, each once, and in each
of them the reader finds what the linker put there.

The number of entries of a section is written as a word. A section that has something to show is left
out only where this number is a positive multiple of `wordLimit`, so that the word is zero, and inputs
of fewer than `wordLimit` bytes have no such number. -/
theorem link_readBack {inputs : List (String × Bytes)} {options : Options} {output : Bytes}
    (linked : link inputs options = .ok output)
    (single : ∀ input ∈ inputs, (Transcript.ofBytes input.2).SingleSections)
    (keeps : ∀ input ∈ inputs, (Transcript.ofBytes input.2).KeepsGlobals) :
    ∃ program interface contents sections, Program.ofInputs inputs options = .ok program ∧
      program.interface options = .ok interface ∧ program.Written interface contents output ∧
      program.ReadsBack interface contents output sections ∧
      -- The numbers of entries are words.
      (totalSize inputs < wordLimit → program.importsIn contents = program.imports ∧
        ∀ id, contents id = none → program.entryCount interface id = 0) := by
  obtain ⟨program, interface, decided, shown, written⟩ := exists_written_of_link linked
  obtain ⟨session, -, parts⟩ := Program.decided_of_ofInputs decided
  have wf := (Program.sound_of_ofInputs decided).wellFormed
  have measured := Program.measured_of_ofInputs decided
  have placed := DataLayout.placed_of_ofModules parts.layout
  obtain ⟨sections, transcript, finds⟩ := written.exists_sections measured placed
    (fun input member => (single input member).singleGlobals) keeps
  obtain ⟨order, events, -⟩ := Program.order_of_finds finds
  refine ⟨program, interface, _, sections, decided, shown, written, ⟨transcript, order, events⟩,
    fun small => ⟨?_, fun id none => ?_⟩⟩
  · exact written.importsIn_eq
      (Program.entryCount_lt measured wf parts shown small (by decide : SectionId.imports ≠ _))
  · exact written.entryCount_eq_zero none (Program.entryCount_lt measured wf parts shown small)

/-- An input with a section of every kind. Its entry point stands in its table. -/
def assorted : List (String × Bytes) :=
  [("assorted.o",
      [0, 97, 115, 109, 1, 0, 0, 0, 1, 4, 1, 96, 0, 0, 2, 7, 1, 1, 101, 1, 102, 0, 0, 3, 2, 1, 0, 6,
        6, 1, 127, 0, 65, 5, 11, 9, 7, 1, 0, 65, 1, 11, 1, 1, 10, 4, 1, 2, 0, 11, 11, 7, 1, 0, 65, 0,
        11, 1, 42, 0, 25, 7, 108, 105, 110, 107, 105, 110, 103, 2, 8, 14, 2, 0, 16, 0, 0, 0, 1, 6,
        95, 115, 116, 97, 114, 116, 0, 11, 4, 110, 97, 109, 101, 1, 4, 1, 1, 1, 97])]

/-- What it is linked to, with a start function and names. -/
def linkedAssorted : Bytes :=
  [0, 97, 115, 109, 1, 0, 0, 0, 1, 132, 128, 128, 128, 0, 1, 96, 0, 0, 2, 135, 128, 128, 128, 0, 1, 1,
   101, 1, 102, 0, 0, 3, 130, 128, 128, 128, 0, 1, 0, 4, 133, 128, 128, 128, 0, 1, 112, 1, 2, 2, 5,
   131, 128, 128, 128, 0, 1, 0, 2, 6, 141, 128, 128, 128, 0, 2, 127, 1, 65, 128, 128, 8, 11, 127, 0,
   65, 5, 11, 7, 147, 128, 128, 128, 0, 2, 6, 109, 101, 109, 111, 114, 121, 2, 0, 6, 95, 115, 116, 97,
   114, 116, 0, 1, 8, 129, 128, 128, 128, 0, 1, 9, 135, 128, 128, 128, 0, 1, 0, 65, 1, 11, 1, 1, 10,
   132, 128, 128, 128, 0, 1, 2, 0, 11, 11, 136, 128, 128, 128, 0, 1, 0, 65, 128, 8, 11, 1, 42, 0, 143,
   128, 128, 128, 0, 4, 110, 97, 109, 101, 1, 132, 128, 128, 128, 0, 1, 1, 1, 97]

/-- It has every section that a linked module can have. -/
theorem link_assorted :
    ∃ (program : Program) (interface : Interface) (contents : SectionId → Option Bytes)
      (sections : List (SectionHeader × List Event)),
      program.ReadsBack interface contents linkedAssorted sections ∧
      (Transcript.ofBytes linkedAssorted).headers.map (·.id) = SectionId.outputOrder ∧
      program.importsIn contents = ⟨[(⟨"e", "f"⟩, 0)], []⟩ := by
  have linked : link assorted { emitStart := true, debugNames := true } = .ok linkedAssorted := by
    decide +kernel
  have single : ∀ input ∈ assorted, (Transcript.ofBytes input.2).SingleSections := by
    decide +kernel
  have keeps : ∀ input ∈ assorted, (Transcript.ofBytes input.2).KeepsGlobals := by
    decide +kernel
  have small : totalSize assorted < wordLimit := by decide +kernel
  have imports : (Program.ofInputs assorted { emitStart := true, debugNames := true }).map
      (·.imports) = .ok ⟨[(⟨"e", "f"⟩, 0)], []⟩ := by decide +kernel
  obtain ⟨program, interface, contents, sections, decided, -, -, back, whole⟩ :=
    link_readBack linked single keeps
  rw [decided] at imports
  refine ⟨program, interface, contents, sections, back, by decide +kernel, ?_⟩
  exact (whole small).1.trans (Except.ok.inj imports)

end StaticLink
