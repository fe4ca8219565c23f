import StaticLink.Proofs.Scan.Progress

/-!
# The sections of a file

A file that is scanned to its end is a sequence of sections. Each has an opening, and what is noted
after it is read from its payload.

* `Scanner.sectionEntries`: the step that reads what comes after the opening of a section.
* `Scanner.oneSection_eq_ok`: a section is its opening and these entries.
* `IsSection`: events were read from the payload of a section of a file.
* `Transcript.sections_of_ofBytes`: a file without a fault is made of sections.
-/

namespace StaticLink

/-- The cursor stands in `file`. -/
def Cursor.In (file : Bytes) (cursor : Cursor) : Prop :=
  cursor.position ≤ file.length ∧ cursor.rest = file.drop cursor.position

theorem Cursor.In.advance {file : Bytes} {cursor : Cursor} (inside : cursor.In file) {count : Nat}
    (within : count ≤ cursor.rest.length) : (cursor.advance count).In file := by
  obtain ⟨le, rest⟩ := inside
  have size : cursor.rest.length = file.length - cursor.position := by rw [rest, List.length_drop]
  constructor
  · show cursor.position + count ≤ file.length
    omega
  · show cursor.rest.drop count = file.drop (cursor.position + count)
    rw [rest, List.drop_drop]

namespace Scanner

open Reader

/-- Reads what comes after the opening of a section. -/
def sectionEntries (header : SectionHeader) : Scanner Unit :=
  match header.id with
  | .custom => customEntries (header.name.getD "") header.range.stop
  | .start => do
    let function ← Reader.varUInt32
    emit (.start function)
  | .dataCount => discard (liftM Reader.varUInt32 : Scanner UInt32)
  | id => vectorEntries id (header.count.getD 0) header.range.stop

theorem entries_sectionEntries (header : SectionHeader) :
    Entries header.id (sectionEntries header) := by
  unfold sectionEntries
  split
  · next custom =>
    rw [custom]
    exact entries_customEntries _ _
  · next start =>
    rw [start]
    exact .read_bind advances_varUInt32 fun function => proceeds_emit rfl
  · intro before _ after h
    obtain ⟨count, h⟩ := discard_eq_ok.1 h
    exact proceeds_read advances_varUInt32 before count after h
  · exact entries_vectorEntries _ _ _

variable {before after : Scan} {index : UInt32} {id : SectionId} {range : Span}

/-- The scan after the opening of a section, which takes so many bytes. -/
def opened (scan : Scan) (header : SectionHeader) (size : Nat) : Scan :=
  { scan with cursor := scan.cursor.advance size, events := scan.events.push (.opening header) }

theorem sectionContents_of_isVector (vector : id.isVector = true) (index : UInt32)
    (range : Span) :
    sectionContents index id range = (do
      let count ← Reader.varUInt32
      let payload : Span := ⟨← Reader.position, range.stop⟩
      emit (.opening { index, id, name := none, range, payload, count := some count })
      vectorEntries id count range.stop) := by
  cases id <;> first | rfl | cases vector

theorem sectionEntries_of_isVector {header : SectionHeader} (vector : header.id.isVector = true) :
    sectionEntries header = vectorEntries header.id (header.count.getD 0) header.range.stop := by
  unfold sectionEntries
  split
  · next same => rw [same] at vector; cases vector
  · next same => rw [same] at vector; cases vector
  · next same => rw [same] at vector; cases vector
  · rfl

/-- The contents of a section are an opening and its entries. -/
theorem sectionContents_eq_ok (h : sectionContents index id range before = .ok () after)
    (here : range.start = before.cursor.position) :
    ∃ header size, size ≤ before.cursor.rest.length ∧ header.index = index ∧ header.id = id ∧
      header.range = range ∧ header.payload = ⟨before.cursor.position + size, range.stop⟩ ∧
      (id ≠ .custom → header.name = none) ∧
      sectionEntries header (opened before header size) = .ok () after := by
  by_cases vector : id.isVector = true
  · rw [sectionContents_of_isVector vector] at h
    obtain ⟨count, middle, one, h⟩ := state_bind_eq_ok.1 h
    obtain ⟨next, read, rfl⟩ := read_eq_ok.1 one
    obtain ⟨size, -, within, rfl⟩ := advances_varUInt32 _ _ _ read
    refine ⟨⟨index, id, none, range, ⟨before.cursor.position + size, range.stop⟩, some count⟩,
      size, within, rfl, rfl, rfl, rfl, fun _ => rfl, ?_⟩
    rw [sectionEntries_of_isVector vector]
    exact h
  · have whole : range = ⟨before.cursor.position + 0, range.stop⟩ := by
      rw [Nat.add_zero, ← here]
    cases id with
    | custom =>
      obtain ⟨name, middle, one, h⟩ := state_bind_eq_ok.1 h
      obtain ⟨next, read, rfl⟩ := read_eq_ok.1 one
      obtain ⟨size, -, within, rfl⟩ := advances_text _ _ _ read
      exact ⟨⟨index, .custom, some name, range, ⟨before.cursor.position + size, range.stop⟩, none⟩,
        size, within, rfl, rfl, rfl, rfl, fun other => absurd rfl other, h⟩
    | start =>
      exact ⟨⟨index, .start, none, range, range, none⟩, 0, Nat.zero_le _, rfl, rfl, rfl, whole,
        fun _ => rfl, h⟩
    | dataCount =>
      exact ⟨⟨index, .dataCount, none, range, range, none⟩, 0, Nat.zero_le _, rfl, rfl, rfl, whole,
        fun _ => rfl, h⟩
    | _ => exact absurd rfl vector

theorem expectAt_eq_ok {stop : Nat} {cursor next : Cursor} {value : Unit}
    (h : Reader.expectAt stop cursor = .ok value next) : next = cursor ∧ cursor.position = stop := by
  obtain ⟨_, _, looked, h⟩ := state_bind_eq_ok.1 h
  cases looked
  split at h
  · obtain ⟨_, _, _, h⟩ := state_bind_eq_ok.1 h
    cases h
  · next same =>
    cases h
    exact ⟨rfl, Decidable.not_not.1 same⟩

/-- A section takes an id and a size, then it is an opening and entries that end where the size
says. -/
theorem oneSection_eq_ok (h : oneSection before = .ok () after) :
    ∃ header size, 1 ≤ size ∧ size ≤ before.cursor.rest.length ∧
      header.index = before.sections ∧ before.cursor.position ≤ header.range.start ∧
      header.range.start ≤ header.payload.start ∧
      header.payload = ⟨before.cursor.position + size, header.range.stop⟩ ∧
      sectionEntries header (opened { before with sections := before.sections + 1 } header size) =
        .ok () after ∧
      after.cursor.position = header.range.stop := by
  obtain ⟨id, _, one, h⟩ := state_bind_eq_ok.1 h
  obtain ⟨_, code, rfl⟩ := read_eq_ok.1 one
  obtain ⟨first, some, fits, rfl⟩ := advances_code _ _ _ _ code
  obtain ⟨size, _, two, h⟩ := state_bind_eq_ok.1 h
  obtain ⟨_, count, rfl⟩ := read_eq_ok.1 two
  obtain ⟨second, -, fits', rfl⟩ := advances_varUInt32 _ _ _ count
  obtain ⟨range, _, three, h⟩ := state_bind_eq_ok.1 h
  obtain ⟨_, ahead, rfl⟩ := read_eq_ok.1 three
  obtain ⟨rfl, rfl, -⟩ := spanAhead_eq_ok ahead
  obtain ⟨_, _, got, h⟩ := state_bind_eq_ok.1 h
  cases got
  obtain ⟨_, _, counted, h⟩ := state_bind_eq_ok.1 h
  cases counted
  obtain ⟨_, last, contents, ends⟩ := state_bind_eq_ok.1 h
  obtain ⟨header, third, fits'', position, -, range, payload, -, entries⟩ :=
    sectionContents_eq_ok contents rfl
  obtain ⟨_, at_end, rfl⟩ := read_eq_ok.1 ends
  obtain ⟨rfl, stop⟩ := expectAt_eq_ok at_end
  simp only [Cursor.length_rest_advance] at fits' fits''
  refine ⟨header, first + second + third, by omega, by omega, position, ?_, ?_, ?_, ?_, ?_⟩
  · rw [range]
    simp only [Cursor.advance]
    omega
  · rw [payload, range]
    exact Nat.le_add_right _ _
  · rw [payload, range]
    simp only [Cursor.advance, Nat.add_assoc]
  · simp only [opened, Cursor.advance_advance] at entries
    exact entries
  · rw [range, ← stop]

end Scanner

/-! ## Whole files -/

/-- The events `contents` were read from the payload of a section of `file` with this header. -/
def IsSection (file : Bytes) (header : SectionHeader) (contents : List Event) : Prop :=
  ∃ before after : Scan, before.cursor.In file ∧ before.cursor.position = header.payload.start ∧
    Scanner.sectionEntries header before = .ok () after ∧
    after.events.toList = before.events.toList ++ contents ∧
    after.cursor.position = header.payload.stop

theorem IsSection.home {file : Bytes} {header : SectionHeader} {contents : List Event}
    (section' : IsSection file header contents) :
    ∀ event ∈ contents, event.home = some header.id := by
  obtain ⟨before, after, -, -, read, events, -⟩ := section'
  obtain ⟨size, noted, -, -, events', kinds, -⟩ :=
    Scanner.entries_sectionEntries header before () after read
  rw [events, List.append_cancel_left_eq] at events'
  rw [events']
  exact kinds

/-- The events of sections: the opening of each and what was read from its payload. -/
def eventsOf (sections : List (SectionHeader × List Event)) : List Event :=
  sections.flatMap fun (header, contents) => .opening header :: contents

theorem eventsOf_singleton (piece : SectionHeader × List Event) :
    eventsOf [piece] = .opening piece.1 :: piece.2 := List.flatMap_singleton _ _

namespace Scanner

variable {before after : Scan} {file : Bytes}

/-- What is noted on the way through these sections of a file. -/
structure Passes (file : Bytes) (before after : Scan)
    (sections : List (SectionHeader × List Event)) : Prop where
  inside : after.cursor.In file
  few : after.events.size + after.cursor.rest.length ≤
    before.events.size + before.cursor.rest.length
  events : after.events.toList = before.events.toList ++ eventsOf sections
  each : ∀ piece ∈ sections, IsSection file piece.1 piece.2

theorem passes_oneSection (inside : before.cursor.In file)
    (h : oneSection before = .ok () after) : ∃ piece, Passes file before after [piece] := by
  obtain ⟨header, size, some, within, -, -, -, payload, entries, stop⟩ := oneSection_eq_ok h
  obtain ⟨size', contents, within', cursor, events, kinds, few⟩ :=
    entries_sectionEntries header _ () after entries
  simp only [opened, Cursor.length_rest_advance, Array.toList_push] at within' cursor events
  have start : (before.cursor.advance size).In file := inside.advance within
  have place : before.cursor.position + size = header.payload.start := by rw [payload]
  refine ⟨(header, contents), ?_, ?_, ?_, ?_⟩
  · rw [cursor]
    exact start.advance (by rw [Cursor.length_rest_advance]; exact within')
  · have count := congrArg List.length events
    rw [List.length_append, List.length_append, Array.length_toList, Array.length_toList,
      List.length_singleton] at count
    rw [cursor, Cursor.length_rest_advance, Cursor.length_rest_advance]
    omega
  · rw [events, List.append_assoc, eventsOf_singleton]
    rfl
  · rintro piece member
    obtain rfl := List.mem_singleton.1 member
    refine ⟨_, after, start, place, entries, ?_, ?_⟩
    · rw [events, opened, Array.toList_push]
    · rw [stop, payload]

theorem passes_sectionsUpTo {limit : Nat} (inside : before.cursor.In file)
    (h : sectionsUpTo limit before = .ok () after) :
    ∃ sections, Passes file before after sections := by
  induction limit generalizing before with
  | zero =>
    cases h
    exact ⟨[], inside, Nat.le_refl _, by simp [eventsOf], by simp⟩
  | succ limit ih =>
    obtain ⟨_, _, got, h⟩ := state_bind_eq_ok.1 h
    cases got
    split at h
    · cases h
      exact ⟨[], inside, Nat.le_refl _, by simp [eventsOf], by simp⟩
    · obtain ⟨_, middle, one, more⟩ := state_bind_eq_ok.1 h
      obtain ⟨piece, inside', few, events, each⟩ := passes_oneSection inside one
      obtain ⟨sections, inside'', few', events', each'⟩ := ih inside' more
      refine ⟨[piece] ++ sections, inside'', Nat.le_trans few' few, ?_,
        List.forall_mem_append.2 ⟨each, each'⟩⟩
      rw [events', events, List.append_assoc, eventsOf, eventsOf, eventsOf, List.flatMap_append]

end Scanner

/-- A file without a fault is made of sections, and it has fewer structures than bytes
after its magic bytes. -/
theorem Transcript.sections_of_ofBytes {file : Bytes} {events : List Event}
    (h : Transcript.ofBytes file = ⟨events, none⟩) :
    events.length + 4 ≤ file.length ∧ ∃ sections, events = eventsOf sections ∧
      ∀ piece ∈ sections, IsSection file piece.1 piece.2 := by
  unfold Transcript.ofBytes at h
  split at h
  · next scan scanned =>
    obtain ⟨rfl, -⟩ := Transcript.mk.inj h
    obtain ⟨_, _, opening, scanned⟩ := state_bind_eq_ok.1 scanned
    obtain ⟨_, header, rfl⟩ := Scanner.read_eq_ok.1 opening
    obtain ⟨size, some, within, rfl⟩ := Reader.advances_header _ _ _ header
    obtain ⟨_, _, got, scanned⟩ := state_bind_eq_ok.1 scanned
    cases got
    have start : (Cursor.ofBytes file).In file := ⟨Nat.zero_le _, rfl⟩
    obtain ⟨sections, -, few, events, each⟩ :=
      Scanner.passes_sectionsUpTo (start.advance within) scanned
    refine ⟨?_, sections, events, each⟩
    -- The scan starts without events, and the header alone makes up for the difference.
    have few : scan.events.size + scan.cursor.rest.length ≤ 0 + (file.length - size) := by
      rw [← List.length_drop]
      exact few
    have within : size ≤ file.length := within
    rw [Array.length_toList]
    omega
  · cases h

end StaticLink
