import StaticLink.Proofs.Inputs.Globals
import StaticLink.Proofs.Output.Memory
import StaticLink.Proofs.Program.Functions
import StaticLink.Proofs.Scan.Modules

/-!
# Reading the sections of a linked module

Each section of a linked module is read, and what is read of it is what the linker had.

* `Program.Reexposes`: the events of each section, in terms of the program.
* `Program.Written.readable_functions`, `Program.Written.readable_data` and the like: they are what a
  reader finds of the section.
* `Program.Written.crosses`: all sections are read one after the other.
-/

namespace StaticLink

open Leb128 (ofUInt32 paddedUInt32)
open Scanner (Readable Crosses IsGlobal)

namespace Program

/-- The imports that a module with these sections has. -/
def importsIn (program : Program) (contents : SectionId → Option Bytes) : Imports :=
  if (contents .imports).isSome then program.imports else ⟨[], []⟩

/-- The types of the globals that the linked module defines. -/
def globalTypes (program : Program) : List GlobalType :=
  program.syntheticGlobals.map (fun _ => syntheticGlobalType) ++
    program.modules.flatMap (·.globals.toList)

/-- The image of an output segment has its address and its contents. -/
def IsImage (program : Program) (segment : OutputSegment) (image : Nat × Bytes) : Prop :=
  image.1 = segment.address ∧ program.segmentContents segment = .ok image.2

/-- The event is that of an image of some number, with a span of the file that has its bytes. -/
def ShowsImage (file : Bytes) (image : (Nat × Bytes) × Nat) (event : Event) : Prop :=
  ∃ span, event = .dataSegment (.ofNat image.2) 0 (.ofInt image.1.1) span ∧
    file.slice? span = some image.1.2

/-- The events of a section of the linked module, which stands in `file`. -/
def Reexposes (program : Program) (interface : Interface) (contents : SectionId → Option Bytes) :
    SectionId → (file : Bytes) → List Event → Prop
  | .imports, _, events => events = program.imports.events
  | .functions, _, events => ∃ types, program.functionTypes = .ok types ∧
      events = types.zipIdx.map fun (type, i) =>
        .function (.ofNat ((program.importsIn contents).functions.length + i)) (.ofNat type)
  | .tables, _, events => events = [.table 0 program.tableLimits]
  | .memories, _, events => events = [.memory 0 program.memoryLimits]
  | .globals, _, events => events = program.globalTypes.zipIdx.map fun (type, i) =>
      .global (.ofNat ((program.importsIn contents).globals.length + i)) type
  | .exports, _, events => events = interface.exports.map fun (name, kind, index) =>
      .exported name kind (.ofNat index)
  | .start, _, events => ∃ function, interface.start = some function ∧
      events = [.start (.ofNat function)]
  | .elements, _, events => ∃ functions, program.tableFunctions = .ok functions ∧
      events = [.elementSegment 0 0 1 (functions.map .ofNat)]
  | .data, file, events => ∃ images, List.Forall₂ program.IsImage program.layout.segments images ∧
      List.Forall₂ (ShowsImage file) images.zipIdx events
  | .custom, _, events => ∃ names, interface.functionNames = some names ∧
      events = names.map fun (index, name) => .functionName index name
  -- Signatures and function bodies are not looked into.
  | .types, _, events | .code, _, events | .dataCount, _, events => events = []

variable {program : Program} {interface : Interface} {contents : SectionId → Option Bytes}
  {output : Bytes} {inputs : List (String × Bytes)} {bytes : Bytes}

/-- The counts of the imports that a reader has met. -/
def importCounts (program : Program) (contents : SectionId → Option Bytes) : UInt32 × UInt32 :=
  (.ofNat (program.importsIn contents).functions.length,
    .ofNat (program.importsIn contents).globals.length)

theorem exists_entries {count : UInt32} {entries : Except Error Bytes}
    (made : vectorContents count entries = .ok (some bytes)) :
    count ≠ 0 ∧ ∃ produced, entries = .ok produced ∧ bytes = ofUInt32 count ++ produced := by
  rcases vectorContents_eq_ok made with ⟨-, none⟩ | ⟨any, produced, done, some⟩
  · cases none
  · exact ⟨any, produced, done, Option.some.inj some⟩

/-- The images of a data section are shown in their order. -/
theorem showsImage_entryEvents {file rest : Bytes} {images : List (Nat × Bytes)}
    (first position : Nat) (ahead : file.drop position = images.flatMap imageBytes ++ rest) :
    List.Forall₂ (ShowsImage file) (images.zipIdx first)
      (Scanner.entryEvents imageBytes (fun i position image =>
        .dataSegment i 0 (.ofInt image.1) (Scanner.dataSpan position image))
        (.ofNat first) position images) := by
  induction images generalizing first position with
  | nil => exact .nil
  | cons image others ih =>
    rw [List.flatMap_cons, List.append_assoc] at ahead
    rw [List.zipIdx_cons, Scanner.entryEvents, Scanner.ofNat_add_one]
    refine .cons ⟨_, rfl, ?_⟩ (ih (first + 1) _ ?_)
    · have inside : file.drop (Scanner.dataSpan position image).start =
          image.2 ++ (others.flatMap imageBytes ++ rest) := by
        unfold Scanner.dataSpan
        rw [← List.drop_drop, ahead, imageBytes, List.append_assoc, List.drop_left]
      exact Bytes.slice?_of_drop inside
    · rw [← List.drop_drop, ahead, List.drop_left]

/-! ## The globals -/

/-- The globals that the linker supplies, each with its bytes. -/
def suppliedGlobals (program : Program) : List (GlobalType × Bytes) :=
  program.syntheticGlobals.map fun initial =>
    (syntheticGlobalType, syntheticGlobalType.encode ++ constantExpression initial)

/-- All globals of the linked module, where these are the globals of the inputs. -/
def globalsWith (program : Program) (globals : List (List (GlobalType × Bytes))) :
    List (GlobalType × Bytes) :=
  program.suppliedGlobals ++ globals.flatten

section Globals

variable {globals : List (List (GlobalType × Bytes))}
  (has : List.Forall₂ ObjectModule.HasGlobals program.modules globals)
include has

theorem isGlobal_of_mem_globalsWith : ∀ found ∈ program.globalsWith globals,
    IsGlobal found.1 found.2 := by
  have own : ∀ found ∈ globals.flatten, IsGlobal found.1 found.2 := by
    generalize program.modules = modules at has
    induction has with
    | nil => simp
    | cons head _ ih =>
      rw [List.flatten_cons]
      exact List.forall_mem_append.2 ⟨head.each, ih⟩
  refine List.forall_mem_append.2 ⟨fun found member => ?_, own⟩
  obtain ⟨initial, -, rfl⟩ := List.mem_map.1 member
  exact ⟨_, _, rfl, Reader.reads_globalType _,
    Reader.reads_skipConstant_of_constantExpression initial⟩

theorem types_globalsWith : (program.globalsWith globals).map (·.1) = program.globalTypes := by
  have own : globals.flatten.map (·.1) = program.modules.flatMap (·.globals.toList) := by
    generalize program.modules = modules at has
    induction has with
    | nil => rfl
    | cons head _ ih =>
      rw [List.flatten_cons, List.map_append, List.flatMap_cons, ih, head.types]
  rw [globalsWith, List.map_append, own, suppliedGlobals, List.map_map]
  rfl

theorem length_globalsWith : (program.globalsWith globals).length = program.globalCount := by
  rw [← List.length_map (·.1), types_globalsWith has, globalTypes, List.length_append,
    List.length_map, length_flatMap (·.globals.size) program.modules fun _ => Array.length_toList]
  rfl

end Globals

namespace Written

variable (written : program.Written interface contents output)
include written

theorem made_of_some {id : SectionId} (here : contents id = some bytes) :
    program.sectionContents interface id = .ok (some bytes) ∧ bytes.length < wordLimit := by
  rw [← here]
  exact ⟨written.made id, written.small id bytes here⟩

/-! ## Each section -/

theorem readable_types (here : contents .types = some bytes) (counts : UInt32 × UInt32) :
    Readable (program.Reexposes interface contents) .types bytes counts counts := by
  obtain ⟨made, small⟩ := written.made_of_some here
  obtain ⟨-, entries, -, rfl⟩ := exists_entries made
  refine Scanner.readable_of_entries rfl small fun scan stop _ place => ?_
  exact ⟨[], Scanner.notes_advanceTo place, fun _ _ _ => rfl⟩

theorem readable_code (here : contents .code = some bytes) (counts : UInt32 × UInt32) :
    Readable (program.Reexposes interface contents) .code bytes counts counts := by
  obtain ⟨made, small⟩ := written.made_of_some here
  obtain ⟨-, entries, -, rfl⟩ := exists_entries made
  refine Scanner.readable_of_entries rfl small fun scan stop _ place => ?_
  exact ⟨[], Scanner.notes_advanceTo place, fun _ _ _ => rfl⟩

theorem readable_functions (here : contents .functions = some bytes) :
    Readable (program.Reexposes interface contents) .functions bytes
      (program.importCounts contents) (program.importCounts contents) := by
  obtain ⟨made, small⟩ := written.made_of_some here
  obtain ⟨-, _, produced, rfl⟩ := exists_entries made
  obtain ⟨types, typed, rfl⟩ := return_eq_ok.1 produced
  have counted : (UInt32.ofNat program.functionCount).toNat = types.length := by
    rw [← length_functionTypes typed]
    refine Scanner.counted_of_flatMap encodeNat (fun type _ => Leb128.length_ofUInt32_pos _) ?_
    rw [List.length_append] at small
    exact Nat.lt_of_le_of_lt (Nat.le_add_left _ _) small
  refine Scanner.readable_of_entries rfl small fun scan stop imported _ => ?_
  refine ⟨_, Scanner.notes_functions counted stop, fun _ _ _ => ⟨types, typed, ?_⟩⟩
  simp only [imported.functions, importCounts, UInt32.ofNat_add]

theorem readable_tables (here : contents .tables = some bytes) (counts : UInt32 × UInt32) :
    Readable (program.Reexposes interface contents) .tables bytes counts counts := by
  obtain ⟨made, small⟩ := written.made_of_some here
  obtain ⟨-, _, ⟨⟩, rfl⟩ := exists_entries made
  refine Scanner.readable_of_entries rfl small fun scan stop imported _ => ?_
  refine ⟨_, Scanner.notes_table program.tableLimits stop, fun _ _ _ => ?_⟩
  rw [imported.tables]
  rfl

theorem readable_memories (here : contents .memories = some bytes) (counts : UInt32 × UInt32) :
    Readable (program.Reexposes interface contents) .memories bytes counts counts := by
  obtain ⟨made, small⟩ := written.made_of_some here
  obtain ⟨-, _, ⟨⟩, rfl⟩ := exists_entries made
  refine Scanner.readable_of_entries rfl small fun scan stop imported _ => ?_
  refine ⟨_, Scanner.notes_memory program.memoryLimits stop, fun _ _ _ => ?_⟩
  rw [imported.memories]
  rfl

theorem readable_exports (here : contents .exports = some bytes) (counts : UInt32 × UInt32) :
    Readable (program.Reexposes interface contents) .exports bytes counts counts := by
  obtain ⟨made, small⟩ := written.made_of_some here
  obtain ⟨-, _, ⟨⟩, rfl⟩ := exists_entries made
  have within : (exportEntries interface.exports).length < wordLimit := by
    rw [List.length_append] at small
    exact Nat.lt_of_le_of_lt (Nat.le_add_left _ _) small
  have counted : (UInt32.ofNat interface.exports.length).toNat = interface.exports.length := by
    refine Scanner.counted_of_flatMap _ ?_ within
    rintro ⟨name, kind, index⟩ -
    rw [List.length_append, List.length_cons]
    omega
  have names (found : String × ExternalKind × Nat) (member : found ∈ interface.exports) :
      (Text.encode found.1).length < wordLimit := by
    have entry := Nat.lt_of_le_of_lt (Scanner.length_le_of_mem_flatMap _ member) within
    rw [List.length_append] at entry
    omega
  refine Scanner.readable_of_entries rfl small fun scan stop _ _ => ?_
  exact ⟨_, Scanner.notes_exports counted names stop, fun _ _ _ => rfl⟩

theorem readable_start (here : contents .start = some bytes) (counts : UInt32 × UInt32) :
    Readable (program.Reexposes interface contents) .start bytes counts counts := by
  obtain ⟨made, small⟩ := written.made_of_some here
  obtain ⟨function, start, rfl⟩ := Option.map_eq_some_iff.1 (Except.ok.inj made)
  refine Scanner.readable_of_notes small fun scan index stop _ _ => ?_
  let header : SectionHeader := ⟨index, .start, none, ⟨scan.cursor.position, stop⟩,
    ⟨scan.cursor.position, stop⟩, none⟩
  refine ⟨header, [.start (.ofNat function)], ?_, rfl, rfl, rfl,
    fun _ _ _ => ⟨function, start, rfl⟩⟩
  exact (Scanner.notes_emit (.opening header)).bind (Scanner.notes_start function)

theorem readable_elements (here : contents .elements = some bytes) (counts : UInt32 × UInt32) :
    Readable (program.Reexposes interface contents) .elements bytes counts counts := by
  obtain ⟨made, small⟩ := written.made_of_some here
  obtain ⟨any, _, produced, rfl⟩ := exists_entries made
  obtain ⟨functions, filled, rfl⟩ := return_eq_ok.1 produced
  have one : program.elementSegmentCount = 1 := by
    unfold elementSegmentCount at any ⊢
    split at any
    · exact absurd rfl any
    · next some => exact if_neg some
  have size := length_tableFunctions filled
  have within : functions.length < wordLimit := by
    refine Nat.lt_of_le_of_lt (Scanner.length_le_flatMap fun function _ =>
      Leb128.length_ofUInt32_pos (.ofNat function)) (Nat.lt_of_le_of_lt ?_ small)
    rw [List.length_append, List.length_append]
    exact Nat.le_trans (Nat.le_add_left _ _) (Nat.le_add_left _ _)
  refine Scanner.readable_of_entries rfl small fun scan stop _ _ => ?_
  refine ⟨_, ?_, fun _ _ _ => ⟨functions, filled, rfl⟩⟩
  rw [one, ← size]
  exact Scanner.notes_elements within firstSlot stop

theorem readable_custom (here : contents .custom = some bytes) (counts : UInt32 × UInt32) :
    Readable (program.Reexposes interface contents) .custom bytes counts counts := by
  obtain ⟨made, small⟩ := written.made_of_some here
  obtain ⟨names, wanted, rfl⟩ := Option.map_eq_some_iff.1 (Except.ok.inj made)
  let subsection : Bytes := CustomSection.functionNames ::
    paddedUInt32 (.ofNat (functionNameContents names).length) ++ functionNameContents names
  have whole : nameContents names = Text.encode CustomSection.namesName ++ subsection := by
    unfold nameContents
    simp only [subsection, List.append_assoc, List.cons_append]
  have size : subsection.length = (CustomSection.functionNames ::
      paddedUInt32 (.ofNat (functionNameContents names).length)).length +
        (functionNameContents names).length := List.length_append
  rw [whole, List.length_append, size] at small
  rw [whole]
  refine Scanner.readable_of_notes (by rw [List.length_append, size]; exact small)
    fun scan index stop _ place => ?_
  rw [List.length_append, ← Nat.add_assoc] at place
  let start := scan.cursor.position + (Text.encode CustomSection.namesName).length
  let header : SectionHeader := ⟨index, .custom, some CustomSection.namesName,
    ⟨scan.cursor.position, stop⟩, ⟨start, stop⟩, none⟩
  refine ⟨header, names.map fun (index, name) => .functionName index name, ?_, rfl, rfl, rfl,
    fun _ _ _ => ⟨names, wanted, rfl⟩⟩
  refine (Scanner.notes_read (Reader.reads_text (by omega))).bind (Scanner.notes_position_bind ?_)
  exact (Scanner.notes_emit (.opening header)).bind (Scanner.notes_names (by omega) place)

theorem readable_data (here : contents .data = some bytes) {base : Nat}
    (placed : program.layout.Placed program.modules base) (counts : UInt32 × UInt32) :
    Readable (program.Reexposes interface contents) .data bytes counts counts := by
  obtain ⟨made, small⟩ := written.made_of_some here
  obtain ⟨-, _, produced, rfl⟩ := exists_entries made
  obtain ⟨entries, each, rfl⟩ := return_eq_ok.1 produced
  obtain ⟨images, same, all⟩ := exists_images placed.laid each
  rw [same] at small ⊢
  have within : (images.flatMap imageBytes).length < wordLimit := by
    rw [List.length_append] at small
    exact Nat.lt_of_le_of_lt (Nat.le_add_left _ _) small
  have counted : (UInt32.ofNat program.layout.segments.length).toNat = images.length := by
    rw [all.length_eq]
    refine Scanner.counted_of_flatMap _ (fun image _ => ?_) within
    have some := Leb128.length_ofUInt32_pos (.ofNat image.2.length)
    unfold imageBytes encodeNat
    rw [List.length_append, List.length_append]
    omega
  have images' (image : Nat × Bytes) (member : image ∈ images) : image.2.length < wordLimit := by
    have entry := Nat.lt_of_le_of_lt (Scanner.length_le_of_mem_flatMap imageBytes member) within
    unfold imageBytes at entry
    rw [List.length_append] at entry
    exact Nat.lt_of_le_of_lt (Nat.le_add_left _ _) entry
  refine Scanner.readable_of_entries rfl small fun scan stop _ _ => ?_
  exact ⟨_, Scanner.notes_data counted images' stop, fun file rest ahead =>
    ⟨images, all.imp fun segment image is => ⟨is.address, is.contents⟩,
      showsImage_entryEvents 0 _ ahead⟩⟩

theorem exists_globalEntries (here : contents .globals = some bytes)
    (measured : program.Measured inputs)
    (single : ∀ input ∈ inputs, (Transcript.ofBytes input.2).SingleGlobals)
    (keeps : ∀ input ∈ inputs, (Transcript.ofBytes input.2).KeepsGlobals) :
    ∃ globals, List.Forall₂ ObjectModule.HasGlobals program.modules globals ∧
      (UInt32.ofNat program.globalCount).toNat = (program.globalsWith globals).length ∧
      bytes = encodeNat program.globalCount ++ (program.globalsWith globals).flatMap (·.2) := by
  obtain ⟨made, small⟩ := written.made_of_some here
  obtain ⟨-, _, produced, rfl⟩ := exists_entries made
  obtain ⟨copied, relocated, rfl⟩ := return_eq_ok.1 produced
  obtain ⟨globals, has, rfl⟩ := exists_globals measured single keeps relocated
  have row : (program.syntheticGlobals.flatMap fun initial =>
      syntheticGlobalType.encode ++ constantExpression initial) ++
        globals.flatten.flatMap (·.2) = (program.globalsWith globals).flatMap (·.2) := by
    rw [globalsWith, suppliedGlobals, List.flatMap_append, List.flatMap_map]
  rw [row] at small ⊢
  refine ⟨globals, has, ?_, rfl⟩
  rw [← length_globalsWith has]
  refine Scanner.counted_of_flatMap (·.2)
    (fun found member => (isGlobal_of_mem_globalsWith has found member).length_pos) ?_
  rw [List.length_append] at small
  exact Nat.lt_of_le_of_lt (Nat.le_add_left _ _) small

theorem readable_globals (here : contents .globals = some bytes)
    (measured : program.Measured inputs)
    (single : ∀ input ∈ inputs, (Transcript.ofBytes input.2).SingleGlobals)
    (keeps : ∀ input ∈ inputs, (Transcript.ofBytes input.2).KeepsGlobals) :
    Readable (program.Reexposes interface contents) .globals bytes
      (program.importCounts contents) (program.importCounts contents) := by
  obtain ⟨-, small⟩ := written.made_of_some here
  obtain ⟨globals, has, counted, rfl⟩ := written.exists_globalEntries here measured single keeps
  refine Scanner.readable_of_entries rfl small fun scan stop imported _ => ?_
  refine ⟨_, Scanner.notes_globals counted (isGlobal_of_mem_globalsWith has) stop, fun _ _ _ => ?_⟩
  simp only [Reexposes, ← types_globalsWith has, List.zipIdx_map, List.map_map, imported.globals,
    importCounts, UInt32.ofNat_add]
  rfl

theorem readable_imports (here : contents .imports = some bytes) :
    Readable (program.Reexposes interface contents) .imports bytes (0, 0)
      (program.importCounts contents) := by
  obtain ⟨made, small⟩ := written.made_of_some here
  obtain ⟨-, _, ⟨⟩, rfl⟩ := exists_entries made
  have both : program.importsIn contents = program.imports := by
    unfold importsIn
    rw [here]
    rfl
  have within : program.importEntries.length < wordLimit := by
    rw [List.length_append] at small
    exact Nat.lt_of_le_of_lt (Nat.le_add_left _ _) small
  have counted := Scanner.counted_of_importEntries within
  let count := UInt32.ofNat program.importCount
  refine Scanner.readable_of_runs small fun scan index imported => ?_
  let range : Span := ⟨scan.cursor.position,
    scan.cursor.position + (ofUInt32 count ++ program.importEntries).length⟩
  let header := Scanner.vectorHeader index .imports range
    (scan.cursor.position + (ofUInt32 count).length) count
  let opened := scan.past (ofUInt32 count).length [.opening header]
  let next := (scan.withFunctions (.ofNat program.imports.functions.length)).withGlobals
    (.ofNat program.imports.globals.length)
  have functions : opened.functionImports = 0 := imported.functions
  have globals : opened.globalImports = 0 := imported.globals
  have entries : Scanner.Runs (Scanner.vectorEntries .imports count range.stop) opened
      program.importEntries () ((next.past (ofUInt32 count).length [.opening header]).past
        program.importEntries.length program.imports.events) :=
    Scanner.run_imports counted within functions globals range.stop
  have whole : Scanner.Runs (Scanner.sectionContents index .imports range) scan
      (ofUInt32 count ++ program.importEntries) () _ := Scanner.runs_vector rfl entries
  rw [Scan.past_past, ← List.length_append] at whole
  refine ⟨header, program.imports.events, next, whole, rfl, rfl, ?_, rfl, rfl, rfl,
    fun _ _ _ => rfl⟩
  unfold importCounts
  rw [both]
  refine ⟨?_, imported.tables, imported.memories, ?_⟩
  · show scan.functionImports + _ = _
    rw [imported.functions, UInt32.zero_add]
  · show scan.globalImports + _ = _
    rw [imported.globals, UInt32.zero_add]

/-! ## All sections -/

/-- Each section is read where it stands. -/
theorem crosses (measured : program.Measured inputs) {base : Nat}
    (placed : program.layout.Placed program.modules base)
    (single : ∀ input ∈ inputs, (Transcript.ofBytes input.2).SingleGlobals)
    (keeps : ∀ input ∈ inputs, (Transcript.ofBytes input.2).KeepsGlobals) (file : Bytes) :
    Crosses file contents (program.Reexposes interface contents) SectionId.outputOrder (0, 0)
      (program.importCounts contents) := by
  have types : Crosses file contents (program.Reexposes interface contents) [.types] (0, 0)
      (0, 0) := by
    refine Scanner.crosses_of_all fun id member bytes here => ?_
    rw [List.mem_singleton.1 member] at here ⊢
    exact written.readable_types here (0, 0)
  have imports : Crosses file contents (program.Reexposes interface contents) [.imports] (0, 0)
      (program.importCounts contents) := by
    rcases here : contents .imports with _ | bytes
    · have none : program.importCounts contents = (0, 0) := by
        unfold importCounts importsIn
        rw [here]
        rfl
      rw [none]
      refine Scanner.crosses_of_none fun id member => ?_
      rw [List.mem_singleton.1 member, here]
    · exact Scanner.crosses_of_some here (written.readable_imports here)
  have others : Crosses file contents (program.Reexposes interface contents)
      [.functions, .tables, .memories, .globals, .exports, .start, .elements, .code, .data, .custom]
      (program.importCounts contents) (program.importCounts contents) := by
    refine Scanner.crosses_of_all fun id member bytes here => ?_
    cases id with
    | functions => exact written.readable_functions here
    | tables => exact written.readable_tables here _
    | memories => exact written.readable_memories here _
    | globals => exact written.readable_globals here measured single keeps
    | exports => exact written.readable_exports here _
    | start => exact written.readable_start here _
    | elements => exact written.readable_elements here _
    | code => exact written.readable_code here _
    | data => exact written.readable_data here placed _
    | custom => exact written.readable_custom here _
    | types | imports | dataCount => simp at member
  exact types.append (imports.append others)

end Written

end Program

end StaticLink
