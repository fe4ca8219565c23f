import Mathlib.Data.List.Forall2
import StaticLink.Proofs.Scan.Entries
import StaticLink.Proofs.Scan.Sections

/-!
# Scanning a module that was written

A module that is made of sections is read section by section. What is read of a section depends on
its contents and on what was imported before it.

* `Readable`: a section with some contents is read as some events.
* `Crosses`: a run of sections is read.
* `Transcript.ofBytes_moduleBytes`: a module of readable sections has no fault, and its sections are
  found in their order.
-/

namespace StaticLink

open Leb128 (ofUInt32 paddedUInt32)

/-- The name of the sections of a linked module that have one. -/
def SectionId.givenName : SectionId → Option String
  | .custom => some CustomSection.namesName
  | _ => none

/-- The scan has met so many imported functions and globals, and no other imports. -/
structure Scan.Imported (scan : Scan) (counts : UInt32 × UInt32) : Prop where
  functions : scan.functionImports = counts.1
  tables : scan.tableImports = 0
  memories : scan.memoryImports = 0
  globals : scan.globalImports = counts.2

namespace Scanner

open Reader

variable {α β : Type} {step : Scanner α} {scan next : Scan} {one taken contents entries : Bytes}
  {noted : List Event} {value : α} {result : β} {id : SectionId} {index count : UInt32}

/-! ## One section -/

/-- The step takes these bytes, whatever comes behind them, and leads to this scan. -/
def Runs (step : Scanner α) (scan : Scan) (taken : Bytes) (value : α) (next : Scan) : Prop :=
  ∀ rest, step (scan.ahead (taken ++ rest)) = .ok value (next.ahead rest)

theorem Notes.bind_runs {last : α → Scanner β} (first : Notes step scan one value noted)
    (second : Runs (last value) (scan.past one.length noted) taken result next) :
    Runs (step >>= last) scan (one ++ taken) result next := by
  intro rest
  rw [List.append_assoc, first.run_bind]
  exact second rest

/-- The opening of a section whose entries are counted. -/
def vectorHeader (index : UInt32) (id : SectionId) (range : Span) (start : Nat) (count : UInt32) :
    SectionHeader :=
  { index, id, name := none, range, payload := ⟨start, range.stop⟩, count := some count }

theorem runs_vector {range : Span} (vector : id.isVector = true)
    (inside : Runs (vectorEntries id count range.stop) (scan.past (ofUInt32 count).length
      [.opening (vectorHeader index id range (scan.cursor.position + (ofUInt32 count).length) count)])
      entries () next) :
    Runs (sectionContents index id range) scan (ofUInt32 count ++ entries) () next := by
  rw [sectionContents_of_isVector vector]
  refine (notes_read (reads_varUInt32 count)).bind_runs ?_
  intro rest
  rw [run_position_bind]
  rw [show entries ++ rest = [] ++ (entries ++ rest) from rfl, (notes_emit _).run_bind,
    Scan.past_past]
  exact inside rest

theorem run_spanAhead_bind (next : Span → Scanner β) (scan : Scan) (contents rest : Bytes) :
    (liftM (spanAhead contents.length) >>= next) (scan.ahead (contents ++ rest)) =
      next ⟨scan.cursor.position, scan.cursor.position + contents.length⟩
        (scan.ahead (contents ++ rest)) := by
  show EStateM.bind (read (spanAhead contents.length)) next (scan.ahead (contents ++ rest)) = _
  unfold EStateM.bind read
  rw [Scan.ahead, spanAhead_append]

/-- The scan inside of a section, where its contents start. -/
def inside (scan : Scan) (contents : Bytes) : Scan :=
  { scan.past (1 + (paddedUInt32 (.ofNat contents.length)).length) [] with
    sections := scan.sections + 1 }

/-- A section is read if its contents are, and these stop where its size says. -/
theorem runs_oneSection {start : Nat} (small : contents.length < wordLimit)
    (here : (inside scan contents).cursor.position = start)
    (runs : Runs (sectionContents scan.sections id ⟨start, start + contents.length⟩)
      (inside scan contents) contents () next)
    (stop : next.cursor.position = start + contents.length) :
    Runs oneSection scan (id.frame contents) () next := by
  intro rest
  have bytes : id.frame contents ++ rest =
      [id.toByte] ++ (paddedUInt32 (.ofNat contents.length) ++ (contents ++ rest)) := by
    simp [SectionId.frame]
  unfold oneSection
  rw [bytes, (notes_read (reads_code (SectionId.ofByte_toByte id))).run_bind,
    (notes_read (reads_paddedUInt32 _)).run_bind, toNat_ofNat_length small, run_spanAhead_bind,
    Scan.past_past]
  refine state_bind_eq_ok.2 ⟨_, _, rfl, state_bind_eq_ok.2 ⟨_, _, rfl, ?_⟩⟩
  refine state_bind_eq_ok.2 ⟨(), next.ahead rest, ?_, ?_⟩
  · subst here
    exact runs rest
  · have ends := notes_expectAt stop rest
    rw [List.length_nil, Scan.past_zero] at ends
    subst here
    exact ends

/-! ## Sections in a file -/

/-- What is found of the section `id`: its opening, where its contents stand, and events that were
read there and are as they should be. -/
structure Finds (held : SectionId → Bytes → List Event → Prop) (file : Bytes) (id : SectionId)
    (contents : Option Bytes) (piece : SectionHeader × List Event) : Prop where
  opening : piece.1.id = id
  named : piece.1.name = id.givenName
  range : file.slice? piece.1.range = contents
  read : IsSection file piece.1 piece.2
  entries : held id file piece.2

/-- From one scan to another, these sections of the file were noted. -/
structure Arrives (file : Bytes) (before : Scan) (rest : Bytes) (counts : UInt32 × UInt32)
    (sections : List (SectionHeader × List Event)) (next : Scan) : Prop where
  inside : next.cursor.In file
  rest : next.cursor.rest = rest
  imported : next.Imported counts
  events : next.events.toList = before.events.toList ++ eventsOf sections

variable {held : SectionId → Bytes → List Event → Prop} {file : Bytes}
  {sections : List (SectionHeader × List Event)} {counts before after last : UInt32 × UInt32}

/-- A section with these contents is read wherever it stands in a file. -/
def Readable (held : SectionId → Bytes → List Event → Prop) (id : SectionId) (contents : Bytes)
    (before after : UInt32 × UInt32) : Prop :=
  ∀ file scan rest, scan.cursor.In file → scan.cursor.rest = id.frame contents ++ rest →
    scan.Imported before → ∃ piece next, oneSection scan = .ok () next ∧
      Arrives file scan rest after [piece] next ∧ Finds held file id (some contents) piece

theorem ahead_rest (scan : Scan) : scan.ahead scan.cursor.rest = scan := rfl

/-- A section is readable if its contents are read to their end. -/
theorem readable_of_runs (small : contents.length < wordLimit)
    (runs : ∀ scan index, scan.Imported before → ∃ (header : SectionHeader) (noted : List Event)
        (next : Scan),
      Runs (sectionContents index id
          ⟨scan.cursor.position, scan.cursor.position + contents.length⟩) scan contents ()
        (next.past contents.length (.opening header :: noted)) ∧
      next.cursor = scan.cursor ∧ next.events = scan.events ∧ next.Imported after ∧
      header.id = id ∧ header.name = id.givenName ∧
      header.range = ⟨scan.cursor.position, scan.cursor.position + contents.length⟩ ∧
      ∀ file rest, file.drop scan.cursor.position = contents ++ rest → held id file noted) :
    Readable held id contents before after := by
  intro file scan rest inFile ahead imported
  have imported' : (inside scan contents).Imported before :=
    ⟨imported.functions, imported.tables, imported.memories, imported.globals⟩
  obtain ⟨header, noted, next, run, cursor, events, after, opening, named, range, holds⟩ :=
    runs (inside scan contents) scan.sections imported'
  have whole := runs_oneSection small rfl run (by simp only [Scan.past, cursor]) rest
  rw [← ahead, ahead_rest] at whole
  have head : (inside scan contents).cursor.position =
      scan.cursor.position + (1 + (paddedUInt32 (.ofNat contents.length)).length) := rfl
  have size : (id.frame contents).length =
      1 + (paddedUInt32 (.ofNat contents.length)).length + contents.length := by
    unfold SectionId.frame
    rw [List.length_append, List.length_cons, Nat.add_comm 1]
  have there : file.drop (inside scan contents).cursor.position = contents ++ rest := by
    rw [head, ← List.drop_drop, ← inFile.2, ahead, SectionId.frame, List.append_assoc]
    exact List.drop_left' (by rw [List.length_cons, Nat.add_comm])
  have slice : file.slice? header.range = some contents := by
    rw [range]
    exact Bytes.slice?_of_drop there
  have noting : ((next.past contents.length (.opening header :: noted)).ahead rest).events.toList =
      scan.events.toList ++ eventsOf [(header, noted)] := by
    show (next.events.toList ++ _) = _
    rw [events]
    simp [inside, Scan.past, eventsOf_singleton]
  have read : IsSection file header noted := by
    obtain ⟨piece, passes⟩ := passes_oneSection inFile whole
    have same := passes.events
    rw [noting, List.append_cancel_left_eq, eventsOf_singleton, eventsOf_singleton] at same
    obtain ⟨opens, same⟩ := List.cons.inj same
    obtain rfl : (header, noted) = piece := Prod.ext (Event.opening.inj opens) same
    exact passes.each _ List.mem_cons_self
  refine ⟨(header, noted), _, whole, ⟨?_, rfl, ?_, noting⟩,
    ⟨opening, named, slice, read, holds file rest there⟩⟩
  · have moved : ((next.past contents.length (.opening header :: noted)).ahead rest).cursor =
        scan.cursor.advance (id.frame contents).length := by
      unfold Cursor.advance
      rw [ahead, List.drop_left, size, ← Nat.add_assoc, ← head, ← cursor]
      rfl
    rw [moved]
    refine inFile.advance ?_
    rw [ahead, List.length_append]
    omega
  · exact ⟨after.functions, after.tables, after.memories, after.globals⟩

/-- As `readable_of_runs`, for a section that leaves the imports alone. -/
theorem readable_of_notes (small : contents.length < wordLimit)
    (notes : ∀ scan index stop, scan.Imported counts →
      stop = scan.cursor.position + contents.length →
      ∃ (header : SectionHeader) (noted : List Event),
        Notes (sectionContents index id ⟨scan.cursor.position, stop⟩) scan contents ()
          (.opening header :: noted) ∧
        header.id = id ∧ header.name = id.givenName ∧ header.range = ⟨scan.cursor.position, stop⟩ ∧
        ∀ file rest, file.drop scan.cursor.position = contents ++ rest → held id file noted) :
    Readable held id contents counts counts := by
  refine readable_of_runs small fun scan index imported => ?_
  obtain ⟨header, noted, run, opening, named, range, holds⟩ := notes scan index _ imported rfl
  exact ⟨header, noted, scan, run, rfl, rfl, imported, opening, named, range, holds⟩

/-- A section of counted entries is readable if its entries are read. -/
theorem readable_of_entries (vector : id.isVector = true)
    (small : (ofUInt32 count ++ entries).length < wordLimit)
    (notes : ∀ scan stop, scan.Imported counts → stop = scan.cursor.position + entries.length →
      ∃ noted, Notes (vectorEntries id count stop) scan entries () noted ∧
        ∀ file rest, file.drop scan.cursor.position = entries ++ rest → held id file noted) :
    Readable held id (ofUInt32 count ++ entries) counts counts := by
  have unnamed : id.givenName = none := by cases id <;> first | rfl | cases vector
  refine readable_of_notes small fun scan index stop imported here => ?_
  let header := vectorHeader index id ⟨scan.cursor.position, stop⟩
    (scan.cursor.position + (ofUInt32 count).length) count
  obtain ⟨noted, run, holds⟩ := notes (scan.past (ofUInt32 count).length [.opening header]) stop
    ⟨imported.functions, imported.tables, imported.memories, imported.globals⟩ (by
      rw [here, List.length_append, ← Nat.add_assoc]
      rfl)
  refine ⟨header, noted, ?_, rfl, unnamed.symm, rfl, fun file rest ahead => holds file rest ?_⟩
  · have whole : Runs (sectionContents index id ⟨scan.cursor.position, stop⟩) scan
        (ofUInt32 count ++ entries) () _ := runs_vector vector run
    rw [Scan.past_past, ← List.length_append] at whole
    exact whole
  · show file.drop (scan.cursor.position + (ofUInt32 count).length) = _
    rw [← List.drop_drop, ahead, List.append_assoc, List.drop_left]

/-- These sections of a file are read one after the other. -/
def Crosses (file : Bytes) (contents : SectionId → Option Bytes)
    (held : SectionId → Bytes → List Event → Prop) (ids : List SectionId)
    (before after : UInt32 × UInt32) : Prop :=
  ∀ scan rest, scan.cursor.In file →
    scan.cursor.rest = (ids.flatMap fun id => (contents id).elim [] id.frame) ++ rest →
    scan.Imported before → ∃ sections next,
      (∀ limit, sectionsUpTo (sections.length + limit) scan = sectionsUpTo limit next) ∧
      Arrives file scan rest after sections next ∧
      List.Forall₂ (fun id => Finds held file id (contents id))
        (ids.filter fun id => (contents id).isSome) sections

variable {contents : SectionId → Option Bytes} {ids earlier later : List SectionId}

theorem Crosses.append (first : Crosses file contents held earlier before after)
    (second : Crosses file contents held later after last) :
    Crosses file contents held (earlier ++ later) before last := by
  intro scan rest inFile ahead imported
  rw [List.flatMap_append, List.append_assoc] at ahead
  obtain ⟨sections, middle, steps, arrives, finds⟩ := first scan _ inFile ahead imported
  obtain ⟨sections', next, steps', arrives', finds'⟩ :=
    second middle rest arrives.inside arrives.rest arrives.imported
  refine ⟨sections ++ sections', next, ?_, ⟨arrives'.inside, arrives'.rest, arrives'.imported, ?_⟩,
    ?_⟩
  · intro limit
    rw [List.length_append, Nat.add_assoc, steps, steps']
  · rw [arrives'.events, arrives.events, List.append_assoc, eventsOf, eventsOf, eventsOf,
      List.flatMap_append]
  · rw [List.filter_append]
    exact List.rel_append finds finds'

/-- Sections that are not there. -/
theorem crosses_of_none (none : ∀ id ∈ ids, contents id = none) :
    Crosses file contents held ids counts counts := by
  intro scan rest inFile ahead imported
  have nothing : (ids.flatMap fun id => (contents id).elim [] id.frame) = [] := by
    refine List.flatMap_eq_nil_iff.2 fun id member => ?_
    rw [none id member]
    rfl
  have nothing' : (ids.filter fun id => (contents id).isSome) = [] := by
    refine List.filter_eq_nil_iff.2 fun id member => ?_
    rw [none id member]
    exact Bool.false_ne_true
  rw [nothing] at ahead
  refine ⟨[], scan, ?_, ⟨inFile, ahead, imported, ?_⟩, ?_⟩
  · intro limit
    rw [List.length_nil, Nat.zero_add]
  · exact (List.append_nil _).symm
  · rw [nothing']
    exact .nil

theorem sectionsUpTo_of_oneSection (more : scan.cursor.atEnd = false)
    (step : oneSection scan = .ok () next) (limit : Nat) :
    sectionsUpTo (limit + 1) scan = sectionsUpTo limit next := by
  show (if scan.cursor.atEnd = true then pure () else do
    oneSection
    sectionsUpTo limit : Scanner Unit) scan = _
  rw [more, if_neg Bool.false_ne_true]
  show EStateM.bind oneSection _ scan = _
  unfold EStateM.bind
  rw [step]

theorem crosses_of_some {bytes : Bytes} (some : contents id = some bytes)
    (readable : Readable held id bytes before after) :
    Crosses file contents held [id] before after := by
  intro scan rest inFile ahead imported
  rw [List.flatMap_singleton, some, Option.elim_some] at ahead
  obtain ⟨piece, next, step, arrives, finds⟩ := readable file scan rest inFile ahead imported
  have more : scan.cursor.atEnd = false := by
    unfold Cursor.atEnd
    rw [ahead]
    rfl
  refine ⟨[piece], next, ?_, arrives, ?_⟩
  · intro limit
    rw [List.length_singleton, Nat.add_comm]
    exact sectionsUpTo_of_oneSection more step limit
  · rw [List.filter_singleton]
    simp only [some, Option.isSome_some]
    exact .cons (some ▸ finds) .nil

/-- Sections that leave the imports alone. -/
theorem crosses_of_all (each : ∀ id ∈ ids, ∀ bytes, contents id = some bytes →
    Readable held id bytes counts counts) : Crosses file contents held ids counts counts := by
  induction ids with
  | nil => exact crosses_of_none (by simp)
  | cons id ids ih =>
    obtain ⟨one, others⟩ := List.forall_mem_cons.1 each
    have first : Crosses file contents held [id] counts counts := by
      rcases here : contents id with _ | bytes
      · refine crosses_of_none fun other member => ?_
        rw [List.mem_singleton.1 member, here]
      · exact crosses_of_some here (one bytes here)
    exact first.append (ih others)

theorem sectionsUpTo_of_atEnd (ends : scan.cursor.atEnd = true) (limit : Nat) :
    sectionsUpTo limit scan = .ok () scan := by
  cases limit with
  | zero => rfl
  | succ limit =>
    show (if scan.cursor.atEnd = true then pure () else _ : Scanner Unit) scan = _
    rw [if_pos ends]
    rfl

/-- Each section takes a byte or more. -/
theorem length_filter_le (contents : SectionId → Option Bytes) (ids : List SectionId) :
    (ids.filter fun id => (contents id).isSome).length ≤
      (ids.flatMap fun id => (contents id).elim [] id.frame).length := by
  induction ids with
  | nil => exact Nat.le_refl 0
  | cons id ids ih =>
    rw [List.flatMap_cons, List.length_append]
    rcases here : contents id with _ | bytes
    · rw [List.filter_cons_of_neg (by simp [here])]
      omega
    · rw [List.filter_cons_of_pos (by simp [here]), Option.elim_some, SectionId.frame,
        List.length_cons, List.length_append, List.length_cons]
      omega

end Scanner

/-- A module of readable sections is read to its end. -/
theorem Transcript.ofBytes_moduleBytes {contents : SectionId → Option Bytes}
    {held : SectionId → Bytes → List Event → Prop} {counts : UInt32 × UInt32}
    (crosses : Scanner.Crosses (moduleBytes contents) contents held SectionId.outputOrder (0, 0)
      counts) :
    ∃ sections, Transcript.ofBytes (moduleBytes contents) = ⟨eventsOf sections, none⟩ ∧
      List.Forall₂ (fun id => Scanner.Finds held (moduleBytes contents) id (contents id))
        (SectionId.outputOrder.filter fun id => (contents id).isSome) sections := by
  let frames := SectionId.outputOrder.flatMap fun id => (contents id).elim [] id.frame
  let start : Scan := { cursor := .ofBytes (moduleBytes contents) }
  let opened : Scan := (start.past Header.encode.length []).ahead frames
  have header : (liftM Reader.header : Scanner Unit) start = .ok () opened := by
    show (liftM Reader.header : Scanner Unit) (start.ahead (Header.encode ++ frames)) = _
    exact Scanner.notes_read Reader.reads_header frames
  have inFile : opened.cursor.In (moduleBytes contents) := by
    have place : opened.cursor.position = Header.encode.length := Nat.zero_add _
    constructor
    · rw [place, moduleBytes, List.length_append]
      omega
    · rw [place, moduleBytes, List.drop_left]
      rfl
  obtain ⟨sections, last, steps, arrives, finds⟩ :=
    crosses opened [] inFile (List.append_nil _).symm ⟨rfl, rfl, rfl, rfl⟩
  have few : sections.length ≤ frames.length := by
    rw [← finds.length_eq]
    exact Scanner.length_filter_le contents SectionId.outputOrder
  obtain ⟨limit, enough⟩ := Nat.exists_eq_add_of_le few
  have ends : last.cursor.atEnd = true := by
    unfold Cursor.atEnd
    rw [arrives.rest]
    rfl
  have all : Scanner.module start = .ok () last := by
    refine state_bind_eq_ok.2 ⟨(), opened, header, ?_⟩
    show Scanner.sectionsUpTo frames.length opened = _
    rw [enough, steps]
    exact Scanner.sectionsUpTo_of_atEnd ends limit
  refine ⟨sections, ?_, finds⟩
  unfold Transcript.ofBytes
  rw [all]
  show Transcript.mk last.events.toList none = _
  rw [arrives.events]
  rfl

end StaticLink
