import StaticLink.Proofs.Output.Frame
import StaticLink.Proofs.Scan.Notes

/-!
# Scanning the entries of sections

A scan that comes to the entries of a section, as they are written, notes one event for each of
them and stops behind them.

* `Scanner.notes_functions`, `Scanner.notes_exports` and the like: the entries of each section.
* `Scanner.IsGlobal`: some bytes are a global; `Scanner.globals_unique`: bytes are a row of globals
  in one way.
* `Scanner.notes_subsections`: a section with one subsection.
* `Imports.events`, `Scanner.run_imports`: the entries of imports, which are counted while they are
  read.
-/

namespace StaticLink

namespace Scanner

open Leb128 (ofUInt32 paddedUInt32)
open Program (encodeNat segmentHeader)
open Reader

variable {α β : Type} {reader : Reader α} {scan : Scan} {taken : Bytes} {noted : List Event}

/-! ## The entries of each section -/

variable {count : UInt32} {stop : Nat}

/-- Entries that are not looked into. -/
theorem notes_advanceTo (here : stop = scan.cursor.position + taken.length) :
    Notes (liftM (advanceTo stop)) scan taken () [] := by
  intro rest
  have size : stop - scan.cursor.position = taken.length := by omega
  have enough : Bytes.hasAtLeast (taken ++ rest) (stop - scan.cursor.position) = true := by
    rw [Bytes.hasAtLeast_iff, List.length_append]
    omega
  have moved : advanceTo stop ⟨scan.cursor.position, taken ++ rest⟩ =
      .ok () ⟨stop, rest⟩ := by
    refine state_bind_eq_ok.2 ⟨_, _, rfl, ?_⟩
    dsimp only
    rw [if_pos ⟨by omega, enough⟩]
    show EStateM.Result.ok () (Cursor.mk _ _) = _
    rw [size, List.drop_left, here]
  refine read_eq_ok.2 ⟨_, moved, ?_⟩
  unfold Scan.past Scan.ahead
  simp only [List.append_nil, Array.toArray_toList, here]

theorem notes_functions {types : List Nat} (counted : count.toNat = types.length) (stop : Nat) :
    Notes (vectorEntries .functions count stop) scan (types.flatMap encodeNat) ()
      (types.zipIdx.map fun (type, i) =>
        .function (scan.functionImports + .ofNat i) (.ofNat type)) := by
  refine notes_times_zipIdx (fun i type => .function (scan.functionImports + i) (.ofNat type)) ?_
    counted
  intro i type size noted _
  exact (notes_read (reads_encodeNat type)).last (notes_get_bind fun _ => notes_emit _)

theorem notes_table (size : Limits) (stop : Nat) :
    Notes (vectorEntries .tables 1 stop) scan size.encodeTable ()
      [.table (scan.tableImports + 0) size] := by
  have one : Notes (times 1 fun i => do
      let limits ← Reader.tableType
      emit (.table ((← get).tableImports + i) limits)) scan ([size].flatMap Limits.encodeTable) ()
      ([size].zipIdx.map fun (limits, i) => .table (scan.tableImports + .ofNat i) limits) := by
    refine notes_times_zipIdx (fun i limits => .table (scan.tableImports + i) limits) ?_ rfl
    intro i limits _ _ _
    exact (notes_read (reads_tableType limits)).last (notes_get_bind fun _ => notes_emit _)
  rw [List.flatMap_singleton] at one
  exact one

theorem notes_memory (size : Limits) (stop : Nat) :
    Notes (vectorEntries .memories 1 stop) scan size.encode ()
      [.memory (scan.memoryImports + 0) size] := by
  have one : Notes (times 1 fun i => do
      let limits ← Reader.limits
      emit (.memory ((← get).memoryImports + i) limits)) scan ([size].flatMap Limits.encode) ()
      ([size].zipIdx.map fun (limits, i) => .memory (scan.memoryImports + .ofNat i) limits) := by
    refine notes_times_zipIdx (fun i limits => .memory (scan.memoryImports + i) limits) ?_ rfl
    intro i limits _ _ _
    exact (notes_read (reads_limits limits)).last (notes_get_bind fun _ => notes_emit _)
  rw [List.flatMap_singleton] at one
  exact one

/-- These bytes are a global of this type: its type and its initial value. -/
def IsGlobal (type : GlobalType) (bytes : Bytes) : Prop :=
  ∃ one two, bytes = one ++ two ∧ Reads globalType one type ∧ Reads skipConstant two ()

theorem IsGlobal.length_pos {type : GlobalType} {bytes : Bytes} (isGlobal : IsGlobal type bytes) :
    0 < bytes.length := by
  obtain ⟨one, two, rfl, reads, -⟩ := isGlobal
  cases one with
  | nil => cases reads 0 []
  | cons first rest => exact Nat.zero_lt_succ _

theorem IsGlobal.unique {type type' : GlobalType} {bytes bytes' rest rest' : Bytes}
    (first : IsGlobal type bytes) (second : IsGlobal type' bytes')
    (same : bytes ++ rest = bytes' ++ rest') : type = type' ∧ bytes = bytes' ∧ rest = rest' := by
  obtain ⟨one, two, rfl, typed, valued⟩ := first
  obtain ⟨one', two', rfl, typed', valued'⟩ := second
  rw [List.append_assoc, List.append_assoc] at same
  obtain ⟨rfl, rfl, behind⟩ := typed.unique typed' same
  obtain ⟨-, rfl, rfl⟩ := valued.unique valued' behind
  exact ⟨rfl, rfl, rfl⟩

/-- Bytes are a row of globals in one way. -/
theorem globals_unique {globals others : List (GlobalType × Bytes)}
    (each : ∀ found ∈ globals, IsGlobal found.1 found.2)
    (each' : ∀ found ∈ others, IsGlobal found.1 found.2)
    (same : globals.flatMap (·.2) = others.flatMap (·.2)) : globals = others := by
  refine items_unique (fun _ => IsGlobal.length_pos) ?_ each each' same
  intro found other rest rest' one two same
  obtain ⟨types, bytes, rest⟩ := one.unique two same
  exact ⟨Prod.ext types bytes, rest⟩

theorem notes_globals {globals : List (GlobalType × Bytes)} (counted : count.toNat = globals.length)
    (each : ∀ found ∈ globals, IsGlobal found.1 found.2) (stop : Nat) :
    Notes (vectorEntries .globals count stop) scan (globals.flatMap (·.2)) ()
      (globals.zipIdx.map fun (found, i) => .global (scan.globalImports + .ofNat i) found.1) := by
  refine notes_times_zipIdx (fun i found => .global (scan.globalImports + i) found.1) ?_ counted
  rintro i ⟨type, bytes⟩ size noted member
  obtain ⟨one, two, rfl, first, second⟩ := each _ member
  refine (notes_read first).bind ((notes_read second).last ?_)
  exact notes_get_bind fun _ => notes_emit _

theorem notes_exports {exports : List (String × ExternalKind × Nat)}
    (counted : count.toNat = exports.length)
    (small : ∀ found ∈ exports, (Text.encode found.1).length < wordLimit) (stop : Nat) :
    Notes (vectorEntries .exports count stop) scan (Program.exportEntries exports) ()
      (exports.map fun (name, kind, index) => .exported name kind (.ofNat index)) := by
  refine notes_times_map (fun (name, kind, index) => .exported name kind (.ofNat index)) ?_ counted
  rintro i ⟨name, kind, index⟩ size noted member
  refine (notes_read (reads_text (small _ member))).bind ?_
  refine (notes_read (reads_code (ExternalKind.ofByte_toByte kind))).bind ?_
  exact (notes_read (reads_encodeNat index)).last (notes_emit _)

theorem notes_start (function : Nat) :
    Notes (do emit (.start (← liftM Reader.varUInt32))) scan (encodeNat function) ()
      [.start (.ofNat function)] :=
  (notes_read (reads_encodeNat function)).last (notes_emit _)

/-- All elements are in one segment, which starts at `start`. -/
theorem notes_elements {functions : List Nat} (small : functions.length < wordLimit)
    (start stop : Nat) :
    Notes (vectorEntries .elements 1 stop) scan
      (segmentHeader start ++ encodeNat functions.length ++ functions.flatMap encodeNat) ()
      [.elementSegment 0 0 (.ofInt start) (functions.map .ofNat)] := by
  have entry : Notes (elementSegment 0) scan (encodeNat 0 ++
      (Program.constantExpression (.ofInt start) ++
        (encodeNat functions.length ++ functions.flatMap encodeNat))) ()
      [.elementSegment 0 0 (.ofInt start) (functions.map .ofNat)] := by
    refine (notes_read reads_segmentOwner).bind ((notes_read (reads_constantI32 _)).bind ?_)
    exact (notes_read (reads_indices small)).last (notes_emit _)
  have one : Notes (times 1 elementSegment) scan _ () _ :=
    entry.last (notes_pure ())
  unfold segmentHeader
  simp only [List.append_assoc] at one ⊢
  exact one

/-- Where the bytes of a data segment stand, if its entry stands at `position`. -/
def dataSpan (position : Nat) (image : Nat × Bytes) : Span :=
  let start := position + (segmentHeader image.1 ++ encodeNat image.2.length).length
  ⟨start, start + image.2.length⟩

theorem notes_data {images : List (Nat × Bytes)} (counted : count.toNat = images.length)
    (small : ∀ image ∈ images, image.2.length < wordLimit) (stop : Nat) :
    Notes (vectorEntries .data count stop) scan
      (images.flatMap fun image =>
        segmentHeader image.1 ++ encodeNat image.2.length ++ image.2) ()
      (entryEvents (fun image => segmentHeader image.1 ++ encodeNat image.2.length ++ image.2)
        (fun i position image =>
          .dataSegment i 0 (.ofInt image.1) (dataSpan position image))
        0 scan.cursor.position images) := by
  refine notes_times (fun i position image =>
    .dataSegment i 0 (.ofInt image.1) (dataSpan position image)) ?_ counted
  rintro i ⟨address, bytes⟩ size noted member
  have count : (UInt32.ofNat bytes.length).toNat = bytes.length :=
    toNat_ofNat_length (small _ member)
  have entry : Notes (dataSegment i) (scan.past size noted) (encodeNat 0 ++
      (Program.constantExpression (.ofInt address) ++ (encodeNat bytes.length ++ bytes))) ()
      [.dataSegment i 0 (.ofInt address)
        (dataSpan (scan.cursor.position + size) (address, bytes))] := by
    refine (notes_read reads_segmentOwner).bind ((notes_read (reads_constantI32 _)).bind ?_)
    refine (notes_read (reads_encodeNat bytes.length)).bind ?_
    rw [count]
    refine (notes_span bytes ?_).last (notes_emit _)
    simp only [Scan.past, segmentHeader, List.length_append, Nat.add_assoc]
  unfold segmentHeader
  simp only [List.append_assoc]
  exact entry

/-! ## Subsections -/

/-- Where a subsection stops that stands at the end of its section. -/
theorem notes_subsectionHeader {kind : UInt8} {size : UInt32} {stop : Nat}
    (here : stop = scan.cursor.position + (kind :: paddedUInt32 size).length + size.toNat) :
    Notes (liftM (subsectionHeader stop)) scan (kind :: paddedUInt32 size) (kind, stop) [] := by
  unfold subsectionHeader
  rw [read_bind]
  show Notes _ _ ([kind] ++ paddedUInt32 size) _ ([] ++ [])
  refine (notes_read (reads_byte kind)).bind ?_
  rw [read_bind]
  refine (notes_read (reads_paddedUInt32 size)).last ?_
  rw [read_bind]
  refine notes_position_bind ?_
  have place : ((scan.past [kind].length []).past (paddedUInt32 size).length []).cursor.position +
      size.toNat = stop := by
    simp only [here, Scan.past, List.length_cons, List.length_nil]
    omega
  dsimp only
  rw [place, if_neg (Nat.lt_irrefl stop)]
  exact notes_pure _

theorem notes_subsectionsUpTo_end {entries : UInt8 → Nat → Scanner Unit} {stop : Nat}
    (here : scan.cursor.position = stop) (limit : Nat) :
    Notes (subsectionsUpTo stop entries limit) scan [] () [] := by
  cases limit with
  | zero => exact notes_pure ()
  | succ limit =>
    refine notes_position_bind ?_
    rw [if_neg (by omega)]
    exact notes_pure ()

/-- A section with one subsection. -/
theorem notes_subsections {entries : UInt8 → Nat → Scanner Unit} {kind : UInt8} {contents : Bytes}
    {stop : Nat} (small : contents.length < wordLimit)
    (here : stop = scan.cursor.position +
      (kind :: paddedUInt32 (.ofNat contents.length) ++ contents).length)
    (inner : ∀ scan, Notes (entries kind stop) scan contents () noted) :
    Notes (subsections stop entries) scan
      (kind :: paddedUInt32 (.ofNat contents.length) ++ contents) () noted := by
  refine notes_position_bind ?_
  rw [List.length_append] at here
  obtain ⟨limit, size⟩ : ∃ limit, stop - scan.cursor.position = limit + 1 :=
    ⟨stop - scan.cursor.position - 1, by rw [List.length_cons] at here; omega⟩
  rw [size]
  refine notes_position_bind ?_
  rw [if_pos (by omega)]
  have header : Notes (liftM (subsectionHeader stop)) scan
      (kind :: paddedUInt32 (.ofNat contents.length)) (kind, stop) [] := by
    refine notes_subsectionHeader ?_
    rw [toNat_ofNat_length small]
    omega
  have entry : Notes (do
      entries kind stop
      liftM (expectAt stop)
      subsectionsUpTo stop entries limit) (scan.past
        (kind :: paddedUInt32 (.ofNat contents.length)).length []) contents () (noted ++ ([] ++ [])) := by
    refine (inner _).last ((notes_expectAt ?_).last (notes_subsectionsUpTo_end ?_ limit))
    · simp only [Scan.past]
      omega
    · simp only [Scan.past, List.length_nil]
      omega
  rw [List.append_nil, List.append_nil] at entry
  exact header.bind entry

/-- The entries of a subsection that fit in it. -/
theorem notes_functionNames {names : List (UInt32 × String)}
    (small : (Program.functionNameContents names).length < wordLimit) (stop : Nat) :
    Notes (nameEntries CustomSection.functionNames stop) scan
      (Program.functionNameContents names) ()
      (names.map fun (index, name) => .functionName index name) := by
  have entries : (Program.functionNameEntries names).length < wordLimit := by
    rw [Program.functionNameContents, List.length_append] at small
    omega
  refine (notes_read (reads_encodeNat names.length)).bind ?_
  refine notes_times_map (fun (index, name) => .functionName index name) ?_
    (counted_of_flatMap _ ?_ entries)
  · rintro i ⟨index, name⟩ size noted member
    have within : (ofUInt32 index ++ Text.encode name).length ≤
        (Program.functionNameEntries names).length :=
      length_le_of_mem_flatMap (fun (index, name) => ofUInt32 index ++ Text.encode name) member
    have short : (Text.encode name).length < wordLimit := by
      rw [List.length_append] at within
      omega
    exact (notes_read (reads_varUInt32 index)).bind
      ((notes_read (reads_text short)).last (notes_emit _))
  · rintro ⟨index, name⟩ -
    have some := Leb128.length_ofUInt32_pos index
    rw [List.length_append]
    omega

/-- The contents of the section for names, after its own name. -/
theorem notes_names {names : List (UInt32 × String)} {stop : Nat}
    (small : (Program.functionNameContents names).length < wordLimit)
    (here : stop = scan.cursor.position + (CustomSection.functionNames ::
      paddedUInt32 (.ofNat (Program.functionNameContents names).length) ++
      Program.functionNameContents names).length) :
    Notes (customEntries CustomSection.namesName stop) scan (CustomSection.functionNames ::
      paddedUInt32 (.ofNat (Program.functionNameContents names).length) ++
      Program.functionNameContents names) ()
      (names.map fun (index, name) => .functionName index name) :=
  notes_subsections small here fun _ => notes_functionNames small stop

/-! ## Imports -/

/-- The entry of a function is read, and there is one imported function more. -/
theorem importEntry_function (scan : Scan) {name : ImportName} {type : Nat}
    (module : (Text.encode name.module).length < wordLimit)
    (field : (Text.encode name.field).length < wordLimit) (rest : Bytes) :
    importEntry (scan.ahead (Program.importName name .function ++ encodeNat type ++ rest)) =
      .ok () (((scan.withFunctions 1).past
        (Program.importName name .function ++ encodeNat type).length
        [.functionImport name.module name.field scan.functionImports (.ofNat type)]).ahead rest) := by
  unfold importEntry Program.importName
  simp only [List.append_assoc]
  rw [(notes_read (reads_text module)).run_bind, (notes_read (reads_text field)).run_bind,
    run_position_bind, (notes_read (reads_code (ExternalKind.ofByte_toByte .function))).run_bind]
  dsimp only
  rw [(notes_read (reads_encodeNat type)).run_bind]
  show EStateM.Result.ok () _ = _
  simp only [Scan.withFunctions, Scan.past, Scan.ahead, List.length_append, Nat.add_assoc,
    List.append_nil, List.push_toArray]

/-- The entry of a global is read, and there is one imported global more. -/
theorem importEntry_global (scan : Scan) {name : ImportName} {type : GlobalType}
    (module : (Text.encode name.module).length < wordLimit)
    (field : (Text.encode name.field).length < wordLimit) (rest : Bytes) :
    importEntry (scan.ahead (Program.importName name .global ++ type.encode ++ rest)) =
      .ok () (((scan.withGlobals 1).past
        (Program.importName name .global ++ type.encode).length
        [.globalImport name.module name.field scan.globalImports type]).ahead rest) := by
  unfold importEntry Program.importName
  simp only [List.append_assoc]
  rw [(notes_read (reads_text module)).run_bind, (notes_read (reads_text field)).run_bind,
    run_position_bind, (notes_read (reads_code (ExternalKind.ofByte_toByte .global))).run_bind]
  dsimp only
  rw [(notes_read (reads_globalType type)).run_bind]
  show EStateM.Result.ok () _ = _
  simp only [Scan.withGlobals, Scan.past, Scan.ahead, List.length_append, Nat.add_assoc,
    List.append_nil, List.push_toArray]

/-- The count `counter` of a scan is raised by `raise`. -/
structure Counts (raise : Scan → UInt32 → Scan) (counter : Scan → UInt32) : Prop where
  zero : ∀ scan, raise scan 0 = scan
  add : ∀ scan some more, raise (raise scan some) more = raise scan (some + more)
  past : ∀ scan size noted more,
    raise (scan.past size noted) more = (raise scan more).past size noted
  one : ∀ scan size noted, counter ((raise scan 1).past size noted) = counter scan + 1

theorem counts_functions : Counts Scan.withFunctions (·.functionImports) where
  zero scan := by rw [Scan.withFunctions, UInt32.add_zero]
  add scan some more := by
    unfold Scan.withFunctions
    rw [UInt32.add_assoc]
  past _ _ _ _ := rfl
  one _ _ _ := rfl

theorem counts_globals : Counts Scan.withGlobals (·.globalImports) where
  zero scan := by rw [Scan.withGlobals, UInt32.add_zero]
  add scan some more := by
    unfold Scan.withGlobals
    rw [UInt32.add_assoc]
  past _ _ _ _ := rfl
  one _ _ _ := rfl

/-- Imports of one kind are read one after the other, and raise their count. -/
theorem timesFrom_importEntry {raise : Scan → UInt32 → Scan} {counter : Scan → UInt32}
    (counts : Counts raise counter) (items : List β) (bytes : β → Bytes)
    (event : UInt32 → β → Event)
    (each : ∀ item ∈ items, ∀ scan rest, importEntry (scan.ahead (bytes item ++ rest)) =
      .ok () (((raise scan 1).past (bytes item).length [event (counter scan) item]).ahead rest))
    (first : UInt32) (scan : Scan) (rest : Bytes) :
    timesFrom (fun _ => importEntry) items.length first (scan.ahead (items.flatMap bytes ++ rest)) =
      .ok () (((raise scan (.ofNat items.length)).past (items.flatMap bytes).length
        (items.zipIdx.map fun (item, i) => event (counter scan + .ofNat i) item)).ahead rest) := by
  induction items generalizing first scan with
  | nil =>
    show EStateM.Result.ok () _ = _
    rw [show UInt32.ofNat ([] : List β).length = 0 from rfl, counts.zero]
    simp only [List.flatMap_nil, List.length_nil, List.zipIdx_nil, List.map_nil, Scan.past_zero,
      List.nil_append]
  | cons item items ih =>
    obtain ⟨one, others⟩ := List.forall_mem_cons.1 each
    rw [List.flatMap_cons, List.append_assoc]
    refine state_bind_eq_ok.2 ⟨(), _, one scan _, ?_⟩
    rw [ih others, counts.past, counts.add, Scan.past_past, counts.one]
    have more : (1 : UInt32) + .ofNat items.length = .ofNat (item :: items).length := by
      rw [List.length_cons, UInt32.ofNat_add, UInt32.add_comm]
      rfl
    have events : [event (counter scan) item] ++ (items.zipIdx.map fun (item, i) =>
        event (counter scan + 1 + .ofNat i) item) =
        (item :: items).zipIdx.map fun (item, i) => event (counter scan + .ofNat i) item := by
      rw [List.zipIdx_cons', List.map_cons, List.map_map, List.singleton_append]
      refine congr (congrArg _ ?_) ?_
      · exact congrArg (event · item) (UInt32.add_zero _).symm
      · refine List.map_congr_left fun pair _ => congrArg (event · pair.1) ?_
        rw [UInt32.add_assoc, UInt32.add_comm 1]
        exact congrArg _ (UInt32.ofNat_add _ _).symm
    rw [more, events, List.length_append]

theorem timesFrom_add {step : UInt32 → Scanner Unit} {some more : Nat} {before middle after : Scan}
    {first : UInt32} (one : timesFrom step some first before = .ok () middle)
    (two : ∀ first, timesFrom step more first middle = .ok () after) :
    timesFrom step (some + more) first before = .ok () after := by
  induction some generalizing first before with
  | zero =>
    cases one
    rw [Nat.zero_add]
    exact two first
  | succ some ih =>
    obtain ⟨_, next, here, there⟩ := state_bind_eq_ok.1 one
    rw [Nat.add_right_comm]
    exact state_bind_eq_ok.2 ⟨(), next, here, ih there⟩

end Scanner

/-- What a reader finds of some imports: first the functions and then the globals, each kind by
itself numbered from zero. -/
def Imports.events (imports : Imports) : List Event :=
  (imports.functions.zipIdx.map fun (found, i) =>
    .functionImport found.1.module found.1.field (.ofNat i) (.ofNat found.2)) ++
  (imports.globals.zipIdx.map fun (found, i) =>
    .globalImport found.1.module found.1.field (.ofNat i) found.2)

namespace Scanner

open Program (encodeNat)

/-- The names in an import are no longer than the section. -/
theorem length_encode_le {name : ImportName} {kind : ExternalKind} {type : Bytes} {limit : Nat}
    (small : (Program.importName name kind ++ type).length < limit) :
    (Text.encode name.module).length < limit ∧ (Text.encode name.field).length < limit := by
  unfold Program.importName at small
  rw [List.length_append, List.length_append, List.length_append] at small
  omega

/-- The entry of an imported function. -/
def functionImportBytes (found : ImportName × Nat) : Bytes :=
  Program.importName found.1 .function ++ encodeNat found.2

/-- The entry of an imported global. -/
def globalImportBytes (found : ImportName × GlobalType) : Bytes :=
  Program.importName found.1 .global ++ found.2.encode

theorem importEntries_eq (program : Program) :
    program.importEntries = program.imports.functions.flatMap functionImportBytes ++
      program.imports.globals.flatMap globalImportBytes := rfl

theorem length_importName_pos (name : ImportName) (kind : ExternalKind) :
    0 < (Program.importName name kind).length := by
  unfold Program.importName
  rw [List.length_append, List.length_singleton]
  exact Nat.zero_lt_succ _

/-- Imports that fit in a section are no more than a word counts. -/
theorem counted_of_importEntries {program : Program}
    (small : program.importEntries.length < wordLimit) :
    (UInt32.ofNat program.importCount).toNat = program.importCount := by
  rw [importEntries_eq, List.length_append] at small
  have functions : program.imports.functions.length ≤
      (program.imports.functions.flatMap functionImportBytes).length := by
    refine length_le_flatMap fun found _ => ?_
    unfold functionImportBytes
    rw [List.length_append]
    exact Nat.add_pos_left (length_importName_pos _ _) _
  have globals : program.imports.globals.length ≤
      (program.imports.globals.flatMap globalImportBytes).length := by
    refine length_le_flatMap fun found _ => ?_
    unfold globalImportBytes
    rw [List.length_append]
    exact Nat.add_pos_left (length_importName_pos _ _) _
  refine UInt32.toNat_ofNat_of_lt' (Nat.lt_of_le_of_lt ?_ small)
  unfold Program.importCount
  omega

theorem run_functionImports {functions : List (ImportName × Nat)}
    (small : (functions.flatMap functionImportBytes).length < wordLimit) (first : UInt32)
    {scan : Scan} (start : scan.functionImports = 0) (rest : Bytes) :
    timesFrom (fun _ => importEntry) functions.length first
        (scan.ahead (functions.flatMap functionImportBytes ++ rest)) =
      .ok () (((scan.withFunctions (.ofNat functions.length)).past
        (functions.flatMap functionImportBytes).length
        (functions.zipIdx.map fun (found, i) => .functionImport found.1.module found.1.field
          (.ofNat i) (.ofNat found.2))).ahead rest) := by
  have all := timesFrom_importEntry counts_functions functions functionImportBytes
    (fun i found => .functionImport found.1.module found.1.field i (.ofNat found.2)) ?_ first scan
    rest
  · simp only [start, UInt32.zero_add] at all
    exact all
  · rintro ⟨name, type⟩ member scan rest
    have within := Nat.lt_of_le_of_lt (length_le_of_mem_flatMap _ member) small
    obtain ⟨module, field⟩ := length_encode_le within
    exact importEntry_function scan module field rest

theorem run_globalImports {globals : List (ImportName × GlobalType)}
    (small : (globals.flatMap globalImportBytes).length < wordLimit) (first : UInt32)
    {scan : Scan} (start : scan.globalImports = 0) (rest : Bytes) :
    timesFrom (fun _ => importEntry) globals.length first
        (scan.ahead (globals.flatMap globalImportBytes ++ rest)) =
      .ok () (((scan.withGlobals (.ofNat globals.length)).past
        (globals.flatMap globalImportBytes).length
        (globals.zipIdx.map fun (found, i) => .globalImport found.1.module found.1.field
          (.ofNat i) found.2)).ahead rest) := by
  have all := timesFrom_importEntry counts_globals globals globalImportBytes
    (fun i found => .globalImport found.1.module found.1.field i found.2) ?_ first scan rest
  · simp only [start, UInt32.zero_add] at all
    exact all
  · rintro ⟨name, type⟩ member scan rest
    have within := Nat.lt_of_le_of_lt (length_le_of_mem_flatMap _ member) small
    obtain ⟨module, field⟩ := length_encode_le within
    exact importEntry_global scan module field rest

/-- Imports are read in their order, and then the scan knows how many there were. -/
theorem run_imports {program : Program} {scan : Scan} {count : UInt32}
    (counted : count.toNat = program.importCount)
    (small : program.importEntries.length < wordLimit)
    (functions : scan.functionImports = 0) (globals : scan.globalImports = 0) (stop : Nat)
    (rest : Bytes) :
    vectorEntries .imports count stop (scan.ahead (program.importEntries ++ rest)) =
      .ok () ((((scan.withFunctions (.ofNat program.imports.functions.length)).withGlobals
        (.ofNat program.imports.globals.length)).past program.importEntries.length
          program.imports.events).ahead rest) := by
  rw [importEntries_eq, List.length_append] at small
  rw [importEntries_eq]
  show timesFrom (fun _ => importEntry) count.toNat 0 _ = _
  rw [counted, Program.importCount, List.append_assoc]
  refine timesFrom_add (run_functionImports (by omega) 0 functions _) fun first => ?_
  rw [run_globalImports (by omega) first (by exact globals), List.length_append, Imports.events,
    ← Scan.past_past]
  rfl

end Scanner

end StaticLink
