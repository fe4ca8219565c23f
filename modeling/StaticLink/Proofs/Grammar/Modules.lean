import StaticLink.Proofs.Grammar.Subsections
import StaticLink.Proofs.Scan.Modules

/-!
# Files and the syntax that they have

* `Scanner.run_sectionContents`, `Scanner.contents_of_sectionContents`: what stands in a section.
* `Scanner.accepts_oneSection`: a section.
* `Scanner.run_sectionsUpTo`, `Scanner.exists_sections`: sections up to the end of the file.
* `Transcript.ofBytes_bytes`, `Transcript.exists_module_of_fault`: a module is scanned, and what is
  scanned is a module.
* `Transcript.ofBytes_eq_iff`: a file is scanned without a fault exactly if it is a module.
-/

namespace StaticLink

namespace Scanner

open Reader
open Grammar (Place Contents rowEvents)

variable {scan last : Scan} {ahead : Bytes}

theorem run_emit (place : Place) (noted : List Event) (event : Event) (rest : Bytes) :
    emit event ((place.scan noted).ahead rest) =
      .ok () ((place.scan (noted ++ [event])).ahead rest) := notes_emit event rest

theorem of_emit_bind {event : Event} {next : Unit → Scanner Unit}
    (h : (emit event >>= next) (scan.ahead ahead) = .ok () last) :
    next () ((scan.past 0 [event]).ahead ahead) = .ok () last :=
  ((notes_emit event).run_bind next ahead).symm.trans h

/-! ## Sections -/

theorem run_sectionContents (number : Nat) (place : Place) (noted : List Event)
    (contents : Contents) (rest : Bytes) :
    sectionContents (.ofNat number) contents.id
        ⟨place.position, place.position + contents.bytes.length⟩
        ((place.scan noted).ahead (contents.bytes ++ rest)) =
      .ok ()
        (((contents.after place).scan (noted ++ contents.events number place)).ahead rest) := by
  let inner := place.past contents.headBytes.length
  have stop : place.position + contents.bytes.length =
      inner.position + contents.payload.length := by
    rw [Contents.bytes, List.length_append, ← Nat.add_assoc]
    rfl
  have behind : contents.after place = { inner with
      position := inner.position + contents.payload.length
      imports := contents.countsAfter place.imports } := by
    rw [Contents.after, stop]
    rfl
  have events : noted ++ contents.events number place =
      noted ++ [.opening (contents.opening number place)] ++ contents.payloadEvents inner := by
    rw [List.append_assoc]
    rfl
  rw [behind, events]
  -- A head is read, the opening is noted, and what is then read fills the section.
  cases contents with
  | custom name contents meant =>
    unfold sectionContents
    dsimp only [Contents.id]
    rw [Contents.bytes, List.append_assoc, Contents.headBytes,
      (notes_read (accepts_text.complete name)).run_bind, run_position_bind, Scan.scan_past,
      List.append_nil]
    refine state_bind_eq_ok.2 ⟨(), _, run_emit _ _ _ _, ?_⟩
    exact (fills_customEntries name.text).run inner ⟨contents, meant⟩ stop _ rest
  | start function =>
    refine state_bind_eq_ok.2 ⟨(), _, run_emit _ _ _ _, ?_⟩
    exact (notes_read (accepts_word.complete function)).last (notes_emit (.start _)) rest
  | dataCount count =>
    refine state_bind_eq_ok.2 ⟨(), _, run_emit _ _ _ _, ?_⟩
    refine discard_eq_ok.2 ⟨count.value, ?_⟩
    exact notes_read (accepts_word.complete count) rest
  | vector count entries counted =>
    have vector : entries.id.isVector = true := by cases entries <;> rfl
    dsimp only [Contents.id]
    rw [sectionContents_of_isVector vector, Contents.bytes, List.append_assoc, Contents.headBytes,
      (notes_read (accepts_word.complete count)).run_bind, run_position_bind, Scan.scan_past,
      List.append_nil]
    refine state_bind_eq_ok.2 ⟨(), _, run_emit _ _ _ _, ?_⟩
    exact (fills_vectorEntries vector count.value).run inner ⟨entries, rfl, counted⟩ stop _ rest

theorem contents_of_sectionContents {index : UInt32} {id : SectionId} {range : Span}
    (h : sectionContents index id range scan = .ok () last)
    (here : last.cursor.position = range.stop) :
    ∃ (contents : Contents) (rest : Bytes), contents.id = id ∧
      scan.cursor.rest = contents.bytes ++ rest ∧
      scan.cursor.position + contents.bytes.length = range.stop := by
  rw [← scan.ahead_rest] at h
  -- Ten kinds of sections are a count and entries, and the three others differ.
  by_cases vector : id.isVector = true
  · rw [sectionContents_of_isVector vector] at h
    obtain ⟨count, rest, one, h⟩ := of_read_bind accepts_word h
    replace h := of_emit_bind (of_position_bind h)
    obtain ⟨⟨entries, kind, counted⟩, rest, two, stop⟩ :=
      (fills_vectorEntries vector count.value).sound h here
    refine ⟨.vector count entries counted, rest, kind, ?_, ?_⟩
    · rw [one, two, Contents.bytes, List.append_assoc]
      rfl
    · rw [Contents.bytes, List.length_append, ← Nat.add_assoc]
      exact stop
  · cases id with
    | custom =>
      obtain ⟨name, rest, one, h⟩ := of_read_bind accepts_text h
      replace h := of_emit_bind (of_position_bind h)
      obtain ⟨⟨contents, meant⟩, rest, two, stop⟩ := (fills_customEntries name.text).sound h here
      refine ⟨.custom name contents meant, rest, rfl, ?_, ?_⟩
      · rw [one, two, Contents.bytes, List.append_assoc]
        rfl
      · rw [Contents.bytes, List.length_append, ← Nat.add_assoc]
        exact stop
    | start =>
      obtain ⟨function, rest, one, h⟩ := of_read_bind accepts_word (of_emit_bind h)
      cases h
      exact ⟨.start function, rest, rfl, one, here⟩
    | dataCount =>
      obtain ⟨value, h⟩ := discard_eq_ok.1 (of_emit_bind h)
      obtain ⟨_, read, rfl⟩ := read_eq_ok.1 h
      obtain ⟨count, rest, one, -, rfl⟩ := accepts_word.eq_ok read
      exact ⟨.dataCount count, rest, rfl, one, here⟩
    | _ => exact absurd rfl vector

theorem accepts_oneSection :
    Accepts oneSection Grammar.Section.bytes Grammar.Section.events Grammar.Section.after where
  complete := by
    rintro place noted ⟨size, contents, filled⟩ rest
    let head := place.past (contents.id.toByte :: size.bytes).length
    let inside : Place := { head with sections := place.sections + 1 }
    -- The two parts of the head are read one by one.
    have behind : ((place.scan noted).past [contents.id.toByte].length []).past
        (List.length size.bytes) [] = head.scan noted := by
      rw [Scan.past_past, Scan.scan_past, List.append_nil, List.append_nil, ← List.length_append]
      rfl
    have reads := run_sectionContents place.sections inside noted contents rest
    unfold oneSection
    rw [Grammar.Section.bytes, Grammar.Section.headBytes, ← List.singleton_append]
    simp only [List.append_assoc]
    rw [(notes_read (accepts_sectionId.complete contents.id)).run_bind,
      (notes_read (accepts_word.complete size)).run_bind, behind, filled]
    refine state_bind_eq_ok.2 ⟨_, _, read_eq_ok.2 ⟨_, spanAhead_append _ _ _, rfl⟩, ?_⟩
    refine state_bind_eq_ok.2 ⟨_, _, rfl, ?_⟩
    refine state_bind_eq_ok.2 ⟨(), (inside.scan noted).ahead (contents.bytes ++ rest), ?_, ?_⟩
    · show EStateM.Result.ok () (Scan.mk _ (.ofNat place.sections + 1) _ _ _ _ _) = _
      rw [ofNat_add_one]
      rfl
    · exact state_bind_eq_ok.2 ⟨(), _, reads, run_expectAt rfl⟩
  sound := by
    intro scan ahead last h
    obtain ⟨id, rest, one, h⟩ := of_read_bind accepts_sectionId h
    obtain ⟨size, rest', two, h⟩ := of_read_bind accepts_word h
    obtain ⟨range, _, three, h⟩ := state_bind_eq_ok.1 h
    obtain ⟨_, looked, rfl⟩ := read_eq_ok.1 three
    obtain ⟨rfl, rfl, -⟩ := spanAhead_eq_ok looked
    obtain ⟨_, _, got, h⟩ := state_bind_eq_ok.1 h
    cases got
    obtain ⟨_, _, counted, h⟩ := state_bind_eq_ok.1 h
    cases counted
    obtain ⟨_, last, scanned, ends⟩ := state_bind_eq_ok.1 h
    obtain ⟨_, at_end, rfl⟩ := read_eq_ok.1 ends
    obtain ⟨rfl, stop⟩ := expectAt_eq_ok at_end
    -- The scan stops where the size says, so that the contents are as long as it says.
    obtain ⟨contents, rest, rfl, three, whole⟩ := contents_of_sectionContents scanned stop
    refine ⟨⟨size, contents, (Nat.add_left_cancel whole).symm⟩, rest, ?_⟩
    change rest' = _ at three
    rw [one, two, three, Grammar.Section.bytes, Grammar.Section.headBytes]
    simp

/-! ## Files -/

theorem run_sectionsUpTo (nodes : List Grammar.Section) (number : Nat) (place : Place)
    (noted : List Event) {limit : Nat} (enough : nodes.length ≤ limit) :
    sectionsUpTo limit ((place.scan noted).ahead (nodes.flatMap Grammar.Section.bytes)) =
      .ok () (((nodes.foldl Grammar.Section.after place).scan (noted ++
        rowEvents (fun _ => Grammar.Section.events) Grammar.Section.after number place
          nodes)).ahead []) := by
  induction nodes generalizing number place noted limit with
  | nil =>
    rw [rowEvents, List.append_nil]
    exact sectionsUpTo_of_atEnd rfl limit
  | cons node nodes ih =>
    obtain ⟨limit, rfl⟩ : ∃ more, limit = more + 1 :=
      Nat.exists_eq_add_one.2 (Nat.lt_of_lt_of_le (Nat.zero_lt_succ _) enough)
    have one := accepts_oneSection.complete place noted node
      (nodes.flatMap Grammar.Section.bytes)
    rw [List.flatMap_cons, sectionsUpTo_of_oneSection rfl one, rowEvents, ← List.append_assoc noted]
    exact ih _ _ _ (Nat.le_of_succ_le_succ enough)

theorem exists_sections {limit : Nat} (enough : ahead.length ≤ limit)
    (h : sectionsUpTo limit (scan.ahead ahead) = .ok () last) :
    ∃ nodes : List Grammar.Section, ahead = nodes.flatMap Grammar.Section.bytes := by
  induction limit generalizing scan ahead with
  | zero => exact ⟨[], List.length_eq_zero_iff.1 (Nat.le_zero.1 enough)⟩
  | succ limit ih =>
    obtain ⟨_, _, got, h⟩ := state_bind_eq_ok.1 h
    cases got
    split at h
    · next ends => exact ⟨[], List.isEmpty_iff.1 ends⟩
    · obtain ⟨node, rest, middle, one, h⟩ := accepts_oneSection.of_bind h
      -- A section takes a byte or more, so that the limit is not reached before the end.
      have some : 0 < node.bytes.length := Nat.zero_lt_succ _
      have shorter : rest.length ≤ limit := by
        rw [one, List.length_append] at enough
        omega
      obtain ⟨nodes, others⟩ := ih shorter h
      exact ⟨node :: nodes, by rw [one, others, List.flatMap_cons]⟩

/-- A scan starts at the front of the file. -/
theorem start_eq (file : Bytes) :
    ({ cursor := .ofBytes file } : Scan) = (Place.scan ⟨0, 0, ⟨0, 0, 0, 0⟩⟩ []).ahead file := rfl

theorem run_module (module : Grammar.Module) :
    Scanner.module { cursor := .ofBytes module.bytes } =
      .ok () (((module.sections.foldl Grammar.Section.after Grammar.Module.start).scan
        module.events).ahead []) := by
  have few : module.sections.length ≤ (module.sections.flatMap Grammar.Section.bytes).length :=
    length_le_flatMap fun _ _ => Nat.zero_lt_succ _
  rw [start_eq, Grammar.Module.bytes]
  unfold Scanner.module
  rw [(notes_read reads_header).run_bind, Scan.scan_past]
  refine state_bind_eq_ok.2 ⟨_, _, rfl, ?_⟩
  exact run_sectionsUpTo module.sections 0 Grammar.Module.start [] few

theorem exists_module {file : Bytes}
    (h : Scanner.module { cursor := .ofBytes file } = .ok () last) :
    ∃ module : Grammar.Module, module.bytes = file := by
  rw [start_eq] at h
  obtain ⟨_, rest, whole, h⟩ := of_read_bind accepts_header h
  obtain ⟨_, _, got, h⟩ := state_bind_eq_ok.1 h
  cases got
  obtain ⟨nodes, sections⟩ := exists_sections (Nat.le_refl rest.length) h
  exact ⟨⟨nodes⟩, by rw [whole, sections, Grammar.Module.bytes]⟩

end Scanner

namespace Transcript

variable {file : Bytes}

theorem ofBytes_bytes (module : Grammar.Module) :
    ofBytes module.bytes = ⟨module.events, none⟩ := by
  unfold ofBytes
  rw [Scanner.run_module]
  rfl

theorem exists_module_of_fault (whole : (ofBytes file).fault = none) :
    ∃ module : Grammar.Module, module.bytes = file := by
  unfold ofBytes at whole
  split at whole
  · next scanned => exact Scanner.exists_module scanned
  · cases whole

/-- A file is scanned without a fault exactly if it is a module, and then the events are those of
the module. -/
theorem ofBytes_eq_iff (file : Bytes) (events : List Event) :
    Transcript.ofBytes file = ⟨events, none⟩ ↔
      ∃ module : Grammar.Module, module.bytes = file ∧ module.events = events := by
  constructor
  · intro h
    obtain ⟨module, rfl⟩ := exists_module_of_fault (congrArg Transcript.fault h)
    exact ⟨module, rfl, congrArg Transcript.events ((ofBytes_bytes module).symm.trans h)⟩
  · rintro ⟨module, rfl, rfl⟩
    exact ofBytes_bytes module

/-- The function to start with is number 5, which is spelled with a byte more than it needs. -/
example : Transcript.ofBytes (Header.encode ++ [8, 2, 0x85, 0x00]) =
    ⟨[.opening ⟨0, .start, none, ⟨10, 12⟩, ⟨10, 12⟩, none⟩, .start 5], none⟩ := by
  decide +kernel

end Transcript

end StaticLink
