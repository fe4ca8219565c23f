import StaticLink.Proofs.Grammar.Tiling

/-!
# Files that were cut off

Of a file without a fault, a first part is scanned as far as there are whole sections in it. What is
left behind them is recognised as cut off before anything is noted of it.

* `eventsBefore`, `SectionEnd`: the events of the sections that end before a position, and the
  positions where one of them ends.
* `Scanner.RunsOut`: a step that comes to the end of the file too early, and notes nothing.
* `Scanner.runsOut_oneSection`: a section of which only a first part is there.
* `Transcript.ofBytes_take`: the first bytes of a file.
-/

namespace StaticLink

/-- The events of the sections that end at this position or before it. -/
def eventsBefore (position : Nat) (events : List Event) : List Event :=
  events.takeWhile fun event => event.header?.all (·.range.stop ≤ position)

/-- Sections start at one position, and at the other either nothing has come yet or one of them
ends. -/
def SectionEnd (start : Nat) (events : List Event) (position : Nat) : Prop :=
  position = start ∨ ∃ header ∈ events.filterMap Event.header?, header.range.stop = position

instance (start : Nat) (events : List Event) (position : Nat) :
    Decidable (SectionEnd start events position) := inferInstanceAs (Decidable (_ ∨ _))

/-! ## Numbers that were cut off -/

/-- A spelling shows where it ends, so that a part of it is recognised as such. -/
theorem Leb128.decodeUnsigned_take_spell {bits width count : Nat} {value : Int}
    (short : 7 * (width - 1) < bits) (cut : count < width) :
    decodeUnsigned bits ((spell width value).take count) = .error .unexpectedEnd := by
  induction width generalizing bits count value with
  | zero => exact absurd cut (Nat.not_lt_zero count)
  | succ width ih =>
    cases count with
    | zero => rfl
    | succ count =>
      -- A byte that is not the last one says that there are more.
      obtain ⟨width, rfl⟩ := Nat.exists_eq_add_one.2 (by omega : 0 < width)
      have later : decodeUnsigned (bits - 7) ((spell (width + 1) (value / 128)).take count) =
          .error .unexpectedEnd := ih (by omega) (by omega)
      rw [spell, List.take_succ_cons, decodeUnsigned, if_neg (by omega),
        if_pos (continues_next value), later]
      rfl

theorem Leb128.decodeUInt32_take {word : Grammar.Word} {count : Nat}
    (cut : count < word.bytes.length) :
    decodeUInt32 (word.bytes.take count) = .error .unexpectedEnd := by
  rw [Grammar.Unsigned.bytes, length_spell] at cut
  have stops : decodeUnsigned 32 ((spell word.width word.number).take count) =
      .error .unexpectedEnd := decodeUnsigned_take_spell word.fits.short cut
  rw [decodeUInt32, Grammar.Unsigned.bytes, stops]
  rfl

/-! ## Sections that were cut off -/

namespace Scanner

open Reader
open Grammar (Place)

variable {α β : Type} {reader : Reader α} {step : Scanner α} {next : α → Scanner β} {scan : Scan}
  {ahead : Bytes}

/-- The step fails as it runs out of bytes, and notes nothing. -/
def RunsOut (step : Scanner α) (scan : Scan) : Prop :=
  ∃ offset cursor, step scan = .error ⟨.unexpectedEnd, offset⟩ { scan with cursor }

theorem RunsOut.bind (first : RunsOut step scan) : RunsOut (step >>= next) scan := by
  obtain ⟨offset, cursor, fails⟩ := first
  exact ⟨offset, cursor, state_bind_eq_error.2 (.inl fails)⟩

theorem runsOut_read (offset : Nat) (cursor : Cursor)
    (fails : reader scan.cursor = .error ⟨.unexpectedEnd, offset⟩ cursor) :
    RunsOut (liftM reader) scan := by
  refine ⟨offset, cursor, ?_⟩
  show read reader scan = _
  unfold read
  rw [fails]

theorem runsOut_varUInt32 {size : Grammar.Word} {count : Nat} (cut : count < size.bytes.length) :
    RunsOut (liftM varUInt32) (scan.ahead (size.bytes.take count)) := by
  refine runsOut_read scan.cursor.position ⟨scan.cursor.position, size.bytes.take count⟩ ?_
  show item Leb128.decodeUInt32 ⟨_, size.bytes.take count⟩ = _
  unfold item
  rw [Leb128.decodeUInt32_take cut]

theorem runsOut_spanAhead {count : Nat} (few : ahead.length < count) :
    RunsOut (liftM (spanAhead count)) (scan.ahead ahead) := by
  have short : ¬ ahead.hasAtLeast count = true := by
    rw [Bytes.hasAtLeast_iff]
    omega
  refine runsOut_read scan.cursor.position ⟨scan.cursor.position, ahead⟩ ?_
  refine state_bind_eq_error.2 (.inr ⟨_, _, rfl, ?_⟩)
  show (if ahead.hasAtLeast count = true then _ else _ : Reader Span) _ = _
  rw [if_neg short]
  rfl

/-- Where a section is cut off, the size of its contents is not there or is larger than what is
there of them, and neither is noted. -/
theorem runsOut_oneSection (place : Place) (noted : List Event) (node : Grammar.Section)
    {count : Nat} (some : 0 < count) (cut : count < node.bytes.length) :
    ∃ offset last, oneSection ((place.scan noted).ahead (node.bytes.take count)) =
      .error ⟨.unexpectedEnd, offset⟩ last ∧ last.events.toList = noted := by
  obtain ⟨count, rfl⟩ := Nat.exists_eq_add_one.2 some
  obtain ⟨size, contents, filled⟩ := node
  let id := contents.id
  have bytes : (Grammar.Section.mk size contents filled).bytes.take (count + 1) =
      [id.toByte] ++ (size.bytes ++ contents.bytes).take count := rfl
  have total : (Grammar.Section.mk size contents filled).bytes.length =
      size.bytes.length + contents.bytes.length + 1 := by
    rw [Grammar.Section.bytes, Grammar.Section.headBytes, List.length_append, List.length_cons,
      Nat.add_right_comm]
  rw [total] at cut
  have stops : ∃ offset cursor, oneSection ((place.scan noted).ahead
      ([id.toByte] ++ (size.bytes ++ contents.bytes).take count)) =
        .error ⟨.unexpectedEnd, offset⟩ { place.scan noted with cursor } := by
    unfold oneSection
    rw [(notes_read (accepts_sectionId.complete id)).run_bind, Scan.scan_past, List.append_nil]
    by_cases inSize : count < size.bytes.length
    · rw [List.take_append_of_le_length (Nat.le_of_lt inSize)]
      exact (runsOut_varUInt32 inSize).bind
    · obtain ⟨there, rfl⟩ := Nat.exists_eq_add_of_le (Nat.le_of_not_lt inSize)
      have few : (contents.bytes.take there).length < size.value.toNat := by
        rw [filled, List.length_take]
        omega
      rw [List.take_length_add_append, (notes_read (accepts_word.complete size)).run_bind,
        Scan.scan_past, List.append_nil]
      exact (runsOut_spanAhead few).bind
  obtain ⟨offset, cursor, fails⟩ := stops
  exact ⟨offset, _, by rw [bytes]; exact fails, rfl⟩

end Scanner

/-! ## Sections in a row -/

namespace Grammar

variable {place : Place} {node : Section} {nodes : List Section} {number position : Nat}
  {header : SectionHeader}

/-- Each of the sections ends behind the position where the first of them starts. -/
theorem position_lt_stop
    (member : header ∈ (sectionEvents number place nodes).filterMap Event.header?) :
    place.position < header.range.stop := by
  induction nodes generalizing place number with
  | nil => cases member
  | cons node nodes ih =>
    have some : 0 < node.bytes.length := Nat.zero_lt_succ _
    have after := node.position_after place
    rw [headers_cons] at member
    rcases List.mem_cons.1 member with rfl | later
    · rw [Section.range_stop]
      omega
    · have := ih later
      omega

/-- Before the end of the first section nothing of it counts. -/
theorem eventsBefore_cons_of_lt (before : position < (node.after place).position) :
    eventsBefore position (sectionEvents number place (node :: nodes)) = [] := by
  refine List.takeWhile_cons_of_neg ?_
  rw [Event.header?, Option.all_some, decide_eq_true_eq]
  exact Nat.not_le_of_lt before

theorem eventsBefore_cons_of_le (behind : (node.after place).position ≤ position) :
    eventsBefore position (sectionEvents number place (node :: nodes)) =
      node.events place ++
        eventsBefore position (sectionEvents (number + 1) (node.after place) nodes) := by
  refine List.takeWhile_append_of_pos fun event member => ?_
  rw [Option.all_eq_true]
  intro header opens
  have listed := List.mem_filterMap.2 ⟨event, member, opens⟩
  rw [node.filterMap_header? place, List.mem_singleton] at listed
  rw [listed, decide_eq_true_eq]
  exact behind

theorem not_sectionEnd_of_lt (behind : place.position < position)
    (before : position < (node.after place).position) :
    ¬ SectionEnd place.position (sectionEvents number place (node :: nodes)) position := by
  rintro (start | ⟨header, member, rfl⟩)
  · omega
  · rw [headers_cons] at member
    rcases List.mem_cons.1 member with rfl | later
    · exact Nat.lt_irrefl _ before
    · have := position_lt_stop later
      omega

theorem sectionEnd_cons_iff (behind : (node.after place).position ≤ position) :
    SectionEnd place.position (sectionEvents number place (node :: nodes)) position ↔
      SectionEnd (node.after place).position
        (sectionEvents (number + 1) (node.after place) nodes) position := by
  have some : 0 < node.bytes.length := Nat.zero_lt_succ _
  have after := node.position_after place
  unfold SectionEnd
  rw [headers_cons]
  simp only [List.exists_mem_cons_iff, Section.range_stop]
  constructor
  · rintro (start | stop | later)
    · omega
    · exact .inl stop.symm
    · exact .inr later
  · rintro (start | later)
    · exact .inr (.inl start.symm)
    · exact .inr (.inr later)

end Grammar

namespace Scanner

open Grammar (Place)

/-- The result of a scan notes these events, and there is a fault, which is that bytes are missing,
exactly if the file does not end where it may. -/
def Stops (result : EStateM.Result Fault Scan Unit) (events : List Event) (whole : Prop) : Prop :=
  ∃ last : Scan, last.events.toList = events ∧
    (whole ∧ result = .ok () last ∨
      ¬ whole ∧ ∃ offset, result = .error ⟨.unexpectedEnd, offset⟩ last)

/-- Nothing is scanned of a section of which bytes are missing. -/
theorem stops_within (node : Grammar.Section) (nodes : List Grammar.Section) (number : Nat)
    (place : Place) (noted : List Event) {count limit : Nat} (enough : count ≤ limit)
    (missing : count < node.bytes.length) :
    Stops (sectionsUpTo limit ((place.scan noted).ahead (node.bytes.take count)))
      (noted ++ eventsBefore (place.position + count)
        (Grammar.sectionEvents number place (node :: nodes)))
      (SectionEnd place.position (Grammar.sectionEvents number place (node :: nodes))
        (place.position + count)) := by
  have after := node.position_after place
  have inside : place.position + count < (node.after place).position := by omega
  rw [Grammar.eventsBefore_cons_of_lt inside, List.append_nil]
  rcases Nat.eq_zero_or_pos count with rfl | positive
  · exact ⟨_, rfl, .inl ⟨.inl rfl, sectionsUpTo_of_atEnd rfl limit⟩⟩
  · obtain ⟨limit, rfl⟩ : ∃ less, limit = less + 1 := Nat.exists_eq_add_one.2 (by omega)
    obtain ⟨offset, last, fails, events⟩ := runsOut_oneSection place noted node positive missing
    refine ⟨last, events, .inr ⟨Grammar.not_sectionEnd_of_lt (by omega) inside, offset, ?_⟩⟩
    have more : ((place.scan noted).ahead (node.bytes.take count)).cursor.atEnd = false := by
      obtain ⟨count, rfl⟩ := Nat.exists_eq_add_one.2 positive
      rfl
    refine state_bind_eq_error.2 (.inr ⟨_, _, rfl, ?_⟩)
    rw [more, if_neg Bool.false_ne_true]
    exact state_bind_eq_error.2 (.inl fails)

/-- Of sections in a row, those are scanned that are there as a whole. -/
theorem stops_sectionsUpTo (nodes : List Grammar.Section) (number : Nat) (place : Place)
    (noted : List Event) {count limit : Nat} (enough : count ≤ limit)
    (within : count ≤ (nodes.flatMap Grammar.Section.bytes).length) :
    Stops
      (sectionsUpTo limit ((place.scan noted).ahead
        ((nodes.flatMap Grammar.Section.bytes).take count)))
      (noted ++ eventsBefore (place.position + count) (Grammar.sectionEvents number place nodes))
      (SectionEnd place.position (Grammar.sectionEvents number place nodes)
        (place.position + count)) := by
  induction nodes generalizing number place noted count limit with
  | nil =>
    obtain rfl : count = 0 := Nat.le_zero.1 within
    refine ⟨_, ?_, .inl ⟨.inl rfl, sectionsUpTo_of_atEnd rfl limit⟩⟩
    exact (List.append_nil noted).symm
  | cons node nodes ih =>
    have some : 0 < node.bytes.length := Nat.zero_lt_succ _
    have after := node.position_after place
    rw [List.flatMap_cons] at within ⊢
    by_cases complete : node.bytes.length ≤ count
    · -- The first section is there as a whole, and the rest of the cut is among the others.
      obtain ⟨more, rfl⟩ := Nat.exists_eq_add_of_le complete
      obtain ⟨limit, rfl⟩ : ∃ less, limit = less + 1 := Nat.exists_eq_add_one.2 (by omega)
      rw [List.length_append] at within
      have behind : (node.after place).position ≤ place.position + (node.bytes.length + more) := by
        omega
      have position : place.position + (node.bytes.length + more) =
          (node.after place).position + more := by omega
      have one := accepts_oneSection.complete place noted node
        ((nodes.flatMap Grammar.Section.bytes).take more)
      have others := @ih (number + 1) (node.after place) (noted ++ node.events place) more limit
        (by omega) (by omega)
      rw [List.take_length_add_append, sectionsUpTo_of_oneSection rfl one,
        Grammar.eventsBefore_cons_of_le behind, Grammar.sectionEnd_cons_iff behind,
        ← List.append_assoc, position]
      exact others
    · rw [List.take_append_of_le_length (by omega)]
      exact stops_within node nodes number place noted enough (Nat.lt_of_not_le complete)

theorem stops_module (module : Grammar.Module) {count : Nat}
    (within : count ≤ (module.sections.flatMap Grammar.Section.bytes).length) :
    Stops
      (Scanner.module { cursor := .ofBytes (Header.encode ++
        (module.sections.flatMap Grammar.Section.bytes).take count) })
      (eventsBefore (8 + count) module.events) (SectionEnd 8 module.events (8 + count)) := by
  have enough : count ≤ ((module.sections.flatMap Grammar.Section.bytes).take count).length := by
    rw [List.length_take]
    omega
  have stops := stops_sectionsUpTo module.sections 0 Grammar.Module.start [] enough within
  have steps : Scanner.module { cursor := .ofBytes (Header.encode ++
      (module.sections.flatMap Grammar.Section.bytes).take count) } =
        sectionsUpTo ((module.sections.flatMap Grammar.Section.bytes).take count).length
          ((Grammar.Module.start.scan []).ahead
            ((module.sections.flatMap Grammar.Section.bytes).take count)) := by
    rw [start_eq]
    unfold Scanner.module
    rw [(notes_read Reader.reads_header).run_bind, Scan.scan_past]
    rfl
  rw [steps]
  exact stops

end Scanner

namespace Grammar.Module

variable (module : Grammar.Module) {count : Nat}

/-- Before its sections there is nothing in a file but the header. -/
theorem bytes_take_of_lt (inHeader : count < 8) :
    module.bytes.take count = Header.encode.take count :=
  List.take_append_of_le_length (Nat.le_of_lt inHeader)

theorem bytes_take_add (more : Nat) :
    module.bytes.take (8 + more) =
      Header.encode ++ (module.sections.flatMap Grammar.Section.bytes).take more := by
  rw [Grammar.Module.bytes, show 8 = Header.encode.length from rfl, List.take_length_add_append]

theorem not_sectionEnd_of_lt_header (inHeader : count < 8) :
    ¬ SectionEnd 8 module.events count := by
  rintro (start | ⟨header, member, rfl⟩)
  · omega
  · have opened : 8 < header.range.stop := Grammar.position_lt_stop member
    omega

theorem eventsBefore_of_lt_header (inHeader : count < 8) :
    eventsBefore count module.events = [] := by
  obtain ⟨nodes⟩ := module
  cases nodes with
  | nil => rfl
  | cons node nodes =>
    have some : 0 < node.bytes.length := Nat.zero_lt_succ _
    have after := node.position_after Grammar.Module.start
    have start : Grammar.Module.start.position = 8 := rfl
    exact Grammar.eventsBefore_cons_of_lt (by omega)

end Grammar.Module

namespace Transcript

/-- A file that ends in its header has no events. -/
theorem ofBytes_take_header :
    ∀ count < 8, ofBytes (Header.encode.take count) =
      ⟨[], some ⟨.unexpectedEnd, if count < 4 then 0 else 4⟩⟩ := by
  decide +kernel

/-- The first bytes of a file without a fault are without a fault exactly if they end behind its
header or behind one of its sections. What is noted are the events of the sections that end there or
before, and the fault is that bytes are missing. -/
theorem ofBytes_take {file : Bytes} {events : List Event} (h : ofBytes file = ⟨events, none⟩)
    {count : Nat} (within : count ≤ file.length) :
    (ofBytes (file.take count)).events = eventsBefore count events ∧
      ((ofBytes (file.take count)).fault = none ↔ SectionEnd 8 events count) ∧
      (¬ SectionEnd 8 events count →
        ∃ offset, (ofBytes (file.take count)).fault = some ⟨.unexpectedEnd, offset⟩) := by
  obtain ⟨module, rfl, rfl⟩ := (ofBytes_eq_iff file events).1 h
  by_cases inHeader : count < 8
  · have inside := module.not_sectionEnd_of_lt_header inHeader
    rw [module.bytes_take_of_lt inHeader, ofBytes_take_header count inHeader,
      module.eventsBefore_of_lt_header inHeader]
    exact ⟨rfl, by simp [inside], fun _ => ⟨_, rfl⟩⟩
  · obtain ⟨more, rfl⟩ := Nat.exists_eq_add_of_le (Nat.le_of_not_lt inHeader)
    have total : module.bytes.length =
        8 + (module.sections.flatMap Grammar.Section.bytes).length := by
      rw [Grammar.Module.bytes, List.length_append]
      rfl
    have few : more ≤ (module.sections.flatMap Grammar.Section.bytes).length := by omega
    obtain ⟨last, noted, ⟨ends, result⟩ | ⟨inside, offset, result⟩⟩ :=
      Scanner.stops_module module few
    · have read : ofBytes (module.bytes.take (8 + more)) = ⟨last.events.toList, none⟩ := by
        rw [module.bytes_take_add, ofBytes, result]
      rw [read, noted]
      exact ⟨rfl, by simp [ends], fun inside => absurd ends inside⟩
    · have read : ofBytes (module.bytes.take (8 + more)) =
          ⟨last.events.toList, some ⟨.unexpectedEnd, offset⟩⟩ := by
        rw [module.bytes_take_add, ofBytes, result]
      rw [read, noted]
      exact ⟨rfl, by simp [inside], fun _ => ⟨offset, rfl⟩⟩

/-- A file of two sections: the function to start with, and a custom section. -/
def startAndCustom : Bytes := Header.encode ++ [8, 1, 5] ++ [0, 3, 1, 0x61, 9]

/-- The second section is cut off in its name. -/
theorem ofBytes_take_startAndCustom :
    (ofBytes startAndCustom).fault = none ∧ 13 ≤ startAndCustom.length ∧
      (ofBytes (startAndCustom.take 13)).events =
        [.opening ⟨0, .start, none, ⟨10, 11⟩, ⟨10, 11⟩, none⟩, .start 5] ∧
      ∃ offset, (ofBytes (startAndCustom.take 13)).fault = some ⟨.unexpectedEnd, offset⟩ := by
  have whole : ofBytes startAndCustom =
      ⟨[.opening ⟨0, .start, none, ⟨10, 11⟩, ⟨10, 11⟩, none⟩, .start 5,
        .opening ⟨1, .custom, some "a", ⟨13, 16⟩, ⟨15, 16⟩, none⟩], none⟩ := by decide +kernel
  have within : 13 ≤ startAndCustom.length := by decide
  obtain ⟨events, -, cut⟩ := ofBytes_take whole within
  exact ⟨by rw [whole], within, events, cut (by decide)⟩

end Transcript

end StaticLink
