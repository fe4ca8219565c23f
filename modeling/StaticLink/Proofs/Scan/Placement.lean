import Mathlib.Algebra.GroupWithZero.Nat
import StaticLink.Proofs.Inputs.Contents
import StaticLink.Proofs.Scan.Sections

/-!
# Where the parts of a file lie

A scan only moves forward, so that what it notes about places in the file is in order.

* `Span.InOrder`: spans that lie one behind the other.
* `Event.weight`: how many things an event says, of which each takes a byte or more.
* `LaidOut`: events whose sections lie between two positions, whose data segments lie there one
  behind the other, and whose alignments are those of addresses.
* `Transcript.laidOut_of_ofBytes`: the events of a file without a fault are laid out in it.
-/

namespace StaticLink

/-! ## Spans in order -/

namespace Span

/-- The spans lie one behind the other between two positions. -/
def InOrder : (start : Nat) → (spans : List Span) → (stop : Nat) → Prop
  | start, [], stop => start ≤ stop
  | start, span :: rest, stop =>
    start ≤ span.start ∧ span.start ≤ span.stop ∧ InOrder span.stop rest stop

variable {start middle stop : Nat} {spans others : List Span} {span : Span}

theorem InOrder.le (order : InOrder start spans stop) : start ≤ stop := by
  induction spans generalizing start with
  | nil => exact order
  | cons span rest ih =>
    obtain ⟨behind, size, rest⟩ := order
    have := ih rest
    omega

theorem InOrder.inside (order : InOrder start spans stop) (member : span ∈ spans) :
    start ≤ span.start ∧ span.start ≤ span.stop ∧ span.stop ≤ stop := by
  induction spans generalizing start with
  | nil => cases member
  | cons first rest ih =>
    obtain ⟨behind, size, others⟩ := order
    rcases List.mem_cons.1 member with rfl | later
    · exact ⟨behind, size, others.le⟩
    · have := ih others later
      omega

/-- No position is in two of the spans. -/
theorem InOrder.pairwise (order : InOrder start spans stop) :
    spans.Pairwise fun first second => first.stop ≤ second.start := by
  induction spans generalizing start with
  | nil => exact .nil
  | cons first rest ih =>
    obtain ⟨-, -, others⟩ := order
    exact List.pairwise_cons.2 ⟨fun _ member => (others.inside member).1, ih others⟩

theorem InOrder.append (first : InOrder start spans middle)
    (second : InOrder middle others stop) : InOrder start (spans ++ others) stop := by
  induction spans generalizing start with
  | nil =>
    -- The first of the other spans only moves away from the start.
    have le : start ≤ middle := first
    cases others with
    | nil => exact Nat.le_trans le second
    | cons span rest =>
      obtain ⟨behind, size, rest⟩ := second
      exact ⟨Nat.le_trans le behind, size, rest⟩
  | cons span rest ih =>
    obtain ⟨behind, size, first⟩ := first
    exact ⟨behind, size, ih first⟩

end Span

/-! ## Events in place -/

/-- The alignment that an event states. -/
def Event.alignment? : Event → Option UInt32
  | segmentInfo _ _ alignment _ => some alignment
  | _ => none

/-- The section lies between two positions, and its payload is what is left of it. -/
structure SectionHeader.Between (start : Nat) (header : SectionHeader) (stop : Nat) : Prop where
  start_le : start ≤ header.range.start
  payload_start : header.range.start ≤ header.payload.start
  payload_le : header.payload.start ≤ header.payload.stop
  payload_stop : header.payload.stop = header.range.stop
  stop_le : header.range.stop ≤ stop

/-- The bytes of a section of types or code, which are not looked into. -/
def SectionHeader.unread (header : SectionHeader) : Nat :=
  if header.id = .types ∨ header.id = .code then header.payload.size else 0

/-- How many things an event says: itself, the functions that it lists, and the bytes of a section
that is not looked into. -/
def Event.weight (event : Event) : Nat :=
  1 + event.elements?.elim 0 List.length + event.header?.elim 0 SectionHeader.unread

/-- What the events say of places in the file is about the positions from `start` to `stop`, and
there is room for it. -/
structure LaidOut (start : Nat) (events : List Event) (stop : Nat) : Prop where
  data : Span.InOrder start (events.filterMap Event.dataSpan?) stop
  headers : ∀ header ∈ events.filterMap Event.header?, header.Between start stop
  alignments : ∀ alignment ∈ events.filterMap Event.alignment?, alignment.toNat < 32
  room : start + (events.map Event.weight).sum ≤ stop

namespace LaidOut

variable {start middle stop : Nat} {events more : List Event}

theorem nil (le : start ≤ stop) : LaidOut start [] stop := ⟨le, by simp, by simp, le⟩

theorem append (first : LaidOut start events middle) (second : LaidOut middle more stop) :
    LaidOut start (events ++ more) stop where
  data := by
    rw [List.filterMap_append]
    exact first.data.append second.data
  headers := by
    intro header member
    rw [List.filterMap_append] at member
    rcases List.mem_append.1 member with member | member
    · have between := first.headers header member
      exact { between with stop_le := Nat.le_trans between.stop_le second.data.le }
    · have between := second.headers header member
      exact { between with start_le := Nat.le_trans first.data.le between.start_le }
  alignments := by
    intro alignment member
    rw [List.filterMap_append] at member
    rcases List.mem_append.1 member with member | member
    · exact first.alignments alignment member
    · exact second.alignments alignment member
  room := by
    have before := first.room
    have behind := second.room
    rw [List.map_append, List.sum_append]
    omega

/-- Where no event is of some sort, none is picked. -/
theorem filterMap_eq_nil {β : Type} {pick : Event → Option β}
    (none : ∀ event ∈ events, pick event = none) : events.filterMap pick = [] :=
  List.filterMap_eq_nil_iff.2 none

end LaidOut

/-! ## The entries of a section -/

theorem Event.dataSpan?_of_home {event : Event} {id : SectionId} (home : event.home = some id)
    (other : id ≠ .data) : event.dataSpan? = none := by
  cases event <;> simp_all [Event.home, Event.dataSpan?]

theorem Event.header?_of_home {event : Event} {id : SectionId} (home : event.home = some id) :
    event.header? = none := by
  cases event <;> simp_all [Event.home, Event.header?]

theorem Event.alignment?_of_home {event : Event} {id : SectionId} (home : event.home = some id)
    (other : id ≠ .custom) : event.alignment? = none := by
  cases event <;> simp_all [Event.home, Event.alignment?]

/-- Only an element segment says more than itself in a section. -/
theorem Event.weight_of_home {event : Event} {id : SectionId} (home : event.home = some id)
    (other : id ≠ .elements) : event.weight = 1 := by
  cases event <;> simp_all [Event.home, Event.weight, Event.elements?, Event.header?]

/-- Nothing is noted in a section that is not looked into. -/
theorem Event.home_ne {event : Event} : event.home ≠ some .types ∧ event.home ≠ some .code := by
  cases event <;> simp [Event.home]

theorem Reader.span_eq_ok {count : Nat} {cursor next : Cursor} {found : Span}
    (h : Reader.span count cursor = .ok found next) :
    found = ⟨cursor.position, cursor.position + count⟩ ∧ next = cursor.advance count := by
  obtain ⟨_, _, looked, h⟩ := state_bind_eq_ok.1 h
  obtain ⟨rfl, rfl, -⟩ := Reader.spanAhead_eq_ok looked
  obtain ⟨_, _, moved, h⟩ := state_bind_eq_ok.1 h
  cases moved
  cases h
  exact ⟨rfl, rfl⟩

namespace Scanner

open Reader

variable {before after : Scan} {index : UInt32}

/-- Where each step notes one event, what goes on to hold with an event more in front holds of all
that are noted. -/
theorem exists_noted_of_timesFrom {step : UInt32 → Scanner Unit} {count : Nat} {first : UInt32}
    {P : (start : Nat) → (noted : List Event) → (stop : Nat) → Prop} (none : ∀ place, P place [] place)
    (each : ∀ index before after, step index before = .ok () after →
      ∃ event, after.events.toList = before.events.toList ++ [event] ∧ ∀ noted stop,
        P after.cursor.position noted stop → P before.cursor.position (event :: noted) stop)
    (h : timesFrom step count first before = .ok () after) :
    ∃ noted, after.events.toList = before.events.toList ++ noted ∧
      P before.cursor.position noted after.cursor.position := by
  induction count generalizing first before with
  | zero =>
    cases h
    exact ⟨[], by simp, none _⟩
  | succ count ih =>
    obtain ⟨_, middle, one, more⟩ := state_bind_eq_ok.1 h
    obtain ⟨event, events, front⟩ := each _ _ _ one
    obtain ⟨noted, events', holds⟩ := ih more
    refine ⟨event :: noted, ?_, front noted _ holds⟩
    rw [events', events, List.append_assoc, List.singleton_append]

/-- A data segment lies behind what stands before its bytes, and ends where its entry ends. -/
theorem dataSegment_eq_ok (h : dataSegment index before = .ok () after) :
    ∃ event span, after.events.toList = before.events.toList ++ [event] ∧
      event.dataSpan? = some span ∧ before.cursor.position ≤ span.start ∧
      span.start ≤ span.stop ∧ after.cursor.position = span.stop := by
  obtain ⟨owner, _, one, h⟩ := state_bind_eq_ok.1 h
  obtain ⟨_, flags, rfl⟩ := read_eq_ok.1 one
  obtain ⟨first, -, -, rfl⟩ := advances_segmentOwner _ _ _ flags
  obtain ⟨offset, _, two, h⟩ := state_bind_eq_ok.1 h
  obtain ⟨_, constant, rfl⟩ := read_eq_ok.1 two
  obtain ⟨second, -, -, rfl⟩ := advances_constantI32 _ _ _ constant
  obtain ⟨size, _, three, h⟩ := state_bind_eq_ok.1 h
  obtain ⟨_, count, rfl⟩ := read_eq_ok.1 three
  obtain ⟨third, -, -, rfl⟩ := advances_varUInt32 _ _ _ count
  obtain ⟨data, _, four, h⟩ := state_bind_eq_ok.1 h
  obtain ⟨_, run, rfl⟩ := read_eq_ok.1 four
  obtain ⟨rfl, rfl⟩ := span_eq_ok run
  cases h
  refine ⟨_, _, Array.toList_push, rfl, ?_, ?_, rfl⟩
  · simp only [Cursor.advance]
    omega
  · simp only [Cursor.advance]
    omega

theorem inOrder_of_timesFrom {count : Nat} {first : UInt32}
    (h : timesFrom dataSegment count first before = .ok () after) :
    ∃ noted, after.events.toList = before.events.toList ++ noted ∧
      Span.InOrder before.cursor.position (noted.filterMap Event.dataSpan?)
        after.cursor.position := by
  refine exists_noted_of_timesFrom (P := fun start noted stop =>
    Span.InOrder start (noted.filterMap Event.dataSpan?) stop) Nat.le_refl ?_ h
  intro index before after one
  obtain ⟨event, span, events, data, behind, size, stop⟩ := dataSegment_eq_ok one
  refine ⟨event, events, fun noted last order => ?_⟩
  rw [stop] at order
  rw [List.filterMap_cons_some data]
  exact ⟨behind, size, order⟩

theorem length_of_indicesOnto {count : Nat} {later found : List UInt32} {cursor next : Cursor}
    (h : indicesOnto count later cursor = .ok found next) : found.length = count + later.length := by
  induction count generalizing later cursor with
  | zero =>
    cases h
    rw [List.length_reverse, Nat.zero_add]
  | succ count ih =>
    obtain ⟨index, middle, -, rest⟩ := state_bind_eq_ok.1 h
    rw [ih rest, List.length_cons]
    omega

/-- The count and each of the functions take a byte or more. -/
theorem indices_eq_ok {found : List UInt32} {cursor next : Cursor}
    (h : indices cursor = .ok found next) : cursor.position + 1 + found.length ≤ next.position := by
  obtain ⟨count, middle, one, rest⟩ := state_bind_eq_ok.1 h
  obtain ⟨first, some, -, rfl⟩ := advances_varUInt32 _ _ _ one
  obtain ⟨second, enough, -, rfl⟩ := advances_indicesOnto _ _ _ _ _ rest
  have length := length_of_indicesOnto rest
  simp only [List.length_nil, Cursor.advance] at length ⊢
  omega

/-- An element segment has room for itself and the functions that it lists. -/
theorem elementSegment_eq_ok (h : elementSegment index before = .ok () after) :
    ∃ event, after.events.toList = before.events.toList ++ [event] ∧
      before.cursor.position + event.weight ≤ after.cursor.position := by
  obtain ⟨owner, _, one, h⟩ := state_bind_eq_ok.1 h
  obtain ⟨_, flags, rfl⟩ := read_eq_ok.1 one
  obtain ⟨first, -, -, rfl⟩ := advances_segmentOwner _ _ _ flags
  obtain ⟨offset, _, two, h⟩ := state_bind_eq_ok.1 h
  obtain ⟨_, constant, rfl⟩ := read_eq_ok.1 two
  obtain ⟨second, -, -, rfl⟩ := advances_constantI32 _ _ _ constant
  have listed {start : Scan} (moved : before.cursor.position ≤ start.cursor.position)
      (same : start.events = before.events)
      (h : (do emit (.elementSegment index owner.1 offset (← indices)) : Scanner Unit) start =
        .ok () after) : ∃ event, after.events.toList = before.events.toList ++ [event] ∧
          before.cursor.position + event.weight ≤ after.cursor.position := by
    obtain ⟨functions, _, three, h⟩ := state_bind_eq_ok.1 h
    obtain ⟨_, read, rfl⟩ := read_eq_ok.1 three
    have room := indices_eq_ok read
    cases h
    refine ⟨.elementSegment index owner.1 offset functions, ?_, ?_⟩
    · rw [← same]
      exact Array.toList_push
    · simp only [Event.weight, Event.elements?, Event.header?, Option.elim_some, Option.elim_none]
      omega
  dsimp only at h
  split at h
  · obtain ⟨_, _, kind, h⟩ := state_bind_eq_ok.1 h
    obtain ⟨_, read, rfl⟩ := read_eq_ok.1 kind
    obtain ⟨third, -, -, rfl⟩ := advances_code _ _ _ _ read
    refine listed ?_ ?_ h
    · simp only [Cursor.advance]
      omega
    · rfl
  · refine listed ?_ ?_ h
    · simp only [Cursor.advance]
      omega
    · rfl

theorem room_of_timesFrom {count : Nat} {first : UInt32}
    (h : timesFrom elementSegment count first before = .ok () after) :
    ∃ noted, after.events.toList = before.events.toList ++ noted ∧
      before.cursor.position + (noted.map Event.weight).sum ≤ after.cursor.position := by
  refine exists_noted_of_timesFrom (P := fun start noted stop =>
    start + (noted.map Event.weight).sum ≤ stop) Nat.le_refl ?_ h
  intro index before after one
  obtain ⟨event, events, room⟩ := elementSegment_eq_ok one
  refine ⟨event, events, fun noted last room' => ?_⟩
  rw [List.map_cons, List.sum_cons]
  omega

/-- The alignments that events of this kind state are those of addresses. -/
def AlignsAddresses (event : Event) : Prop :=
  ∀ alignment, event.alignment? = some alignment → alignment.toNat < 32

theorem alignsAddresses_of_none {event : Event} (none : event.alignment? = none) :
    AlignsAddresses event := by
  intro alignment some
  rw [none] at some
  cases some

theorem aligns_nameEntries (kind : UInt8) (stop : Nat) :
    Proceeds (nameEntries kind stop) AlignsAddresses 0 := by
  unfold nameEntries
  split
  · refine proceeds_counted fun _ => .read_bind advances_varUInt32 fun index => ?_
    exact .skip_bind advances_text fun name => proceeds_emit (alignsAddresses_of_none rfl)
  · exact proceeds_read (advances_advanceTo stop)

theorem aligns_segmentInfo (index : UInt32) :
    Proceeds (segmentInfo index) AlignsAddresses 0 := by
  refine .read_bind advances_text fun name => .skip_bind advances_position fun start => ?_
  refine .skip_bind advances_varUInt32 fun alignment => ?_
  have flags (small : ¬ alignment ≥ 32) : Proceeds (do
      let flags ← Reader.varUInt32
      emit (.segmentInfo index name alignment flags)) AlignsAddresses 1 := by
    refine .skip_bind advances_varUInt32 fun flags => proceeds_emit ?_
    rintro stated ⟨⟩
    exact UInt32.lt_iff_toNat_lt.1 (UInt32.not_le.1 small)
  dsimp only
  split
  · -- What follows a fault is never reached.
    intro before value after h
    obtain ⟨_, _, failed, -⟩ := state_bind_eq_ok.1 h
    obtain ⟨_, failed, -⟩ := read_eq_ok.1 failed
    cases failed
  · next small => exact flags small

theorem aligns_linkingEntries (kind : UInt8) (stop : Nat) :
    Proceeds (linkingEntries kind stop) AlignsAddresses 0 := by
  unfold linkingEntries
  split
  · exact proceeds_counted aligns_segmentInfo
  · refine proceeds_counted fun _ => .read_bind advances_varUInt32 fun priority => ?_
    exact .skip_bind advances_varUInt32 fun symbol => proceeds_emit (alignsAddresses_of_none rfl)
  · refine proceeds_counted fun index => .read_bind advances_symbolEntry fun _ => ?_
    exact proceeds_emit (alignsAddresses_of_none rfl)
  · exact proceeds_read (advances_advanceTo stop)

theorem aligns_customEntries (name : String) (stop : Nat) :
    Proceeds (customEntries name stop) AlignsAddresses 0 := by
  unfold customEntries
  split
  · refine .skip_bind advances_position fun start => .skip_bind advances_varUInt32 fun version => ?_
    have entries := proceeds_subsections aligns_linkingEntries stop
    dsimp only
    split
    · exact .skip_bind (advances_failAt start _ 0) fun _ => entries
    · exact entries
  · exact proceeds_subsections aligns_nameEntries stop
  · refine .skip_bind advances_varUInt32 fun target => proceeds_counted fun _ => ?_
    refine .read_bind advances_relocationEntry fun relocation => ?_
    exact proceeds_emit (alignsAddresses_of_none rfl)
  · exact proceeds_read (advances_advanceTo stop)

variable {header : SectionHeader} {contents : List Event}

/-- What was read from the payload of a section is laid out where it was read. -/
theorem laidOut_sectionEntries (h : sectionEntries header before = .ok () after)
    (events : after.events.toList = before.events.toList ++ contents) :
    LaidOut before.cursor.position contents after.cursor.position := by
  obtain ⟨size, noted, -, cursor, events', homes, few⟩ := entries_sectionEntries header _ () _ h
  have same : noted = contents := List.append_cancel_left (events'.symm.trans events)
  subst same
  have forward : before.cursor.position + size = after.cursor.position := by
    rw [cursor]
    rfl
  refine ⟨?_, ?_, ?_, ?_⟩
  · by_cases data : header.id = .data
    · have entries : sectionEntries header =
          timesFrom dataSegment (header.count.getD 0).toNat 0 := by
        rw [sectionEntries_of_isVector (by rw [data]; rfl), data]
        rfl
      rw [entries] at h
      obtain ⟨found, events, order⟩ := inOrder_of_timesFrom h
      rw [List.append_cancel_left (events'.symm.trans events)]
      exact order
    · rw [LaidOut.filterMap_eq_nil fun event member =>
        Event.dataSpan?_of_home (homes event member) data]
      exact Nat.le_of_add_right_le (Nat.le_of_eq forward)
  · rw [LaidOut.filterMap_eq_nil fun event member => Event.header?_of_home (homes event member)]
    simp
  · by_cases custom : header.id = .custom
    · have entries : sectionEntries header =
          customEntries (header.name.getD "") header.range.stop := by
        unfold sectionEntries
        rw [custom]
      rw [entries] at h
      obtain ⟨-, found, -, -, events, aligned, -⟩ := aligns_customEntries _ _ _ () _ h
      rw [List.append_cancel_left (events'.symm.trans events)]
      intro alignment member
      obtain ⟨event, member, stated⟩ := List.mem_filterMap.1 member
      exact aligned event member alignment stated
    · rw [LaidOut.filterMap_eq_nil fun event member =>
        Event.alignment?_of_home (homes event member) custom]
      simp
  · by_cases elements : header.id = .elements
    · have entries : sectionEntries header =
          timesFrom elementSegment (header.count.getD 0).toNat 0 := by
        rw [sectionEntries_of_isVector (by rw [elements]; rfl), elements]
        rfl
      rw [entries] at h
      obtain ⟨found, events, room⟩ := room_of_timesFrom h
      rw [List.append_cancel_left (events'.symm.trans events)]
      exact room
    · have weights : noted.map Event.weight = noted.map fun _ => 1 :=
        List.map_congr_left fun event member => Event.weight_of_home (homes event member) elements
      rw [weights, List.map_const', List.sum_replicate_nat, Nat.mul_one]
      omega

/-- Where a section is not looked into, nothing but its opening is noted. -/
theorem eq_nil_of_unread {id : SectionId} (unread : id = .types ∨ id = .code)
    (homes : ∀ event ∈ contents, event.home = some id) : contents = [] := by
  refine List.eq_nil_iff_forall_not_mem.2 fun event member => ?_
  rcases unread with rfl | rfl
  · exact Event.home_ne.1 (homes event member)
  · exact Event.home_ne.2 (homes event member)

/-! ## Whole files -/

theorem laidOut_oneSection (h : oneSection before = .ok () after) :
    ∃ noted, after.events.toList = before.events.toList ++ noted ∧
      LaidOut before.cursor.position noted after.cursor.position := by
  obtain ⟨header, size, some, -, -, within, start, payload, entries, stop⟩ := oneSection_eq_ok h
  obtain ⟨size', contents, -, cursor, events, homes, -⟩ :=
    entries_sectionEntries header _ () _ entries
  have inside := laidOut_sectionEntries entries events
  have opening : (opened { before with sections := before.sections + 1 } header
      size).cursor.position = header.payload.start := by
    rw [payload]
    rfl
  rw [opening] at inside
  simp only [opened, Array.toList_push, List.append_assoc, List.singleton_append] at events
  have between : header.Between before.cursor.position after.cursor.position := by
    refine ⟨within, start, ?_, ?_, Nat.le_of_eq stop.symm⟩
    · rw [payload, ← stop]
      rw [payload] at inside
      exact inside.data.le
    · rw [payload]
  have before_payload := Nat.le_trans within start
  refine ⟨.opening header :: contents, events, ?_, ?_, ?_, ?_⟩
  · have place : LaidOut before.cursor.position [] header.payload.start := .nil before_payload
    exact (place.append inside).data
  · intro other member
    have listed : other ∈ header :: contents.filterMap Event.header? := member
    rcases List.mem_cons.1 listed with rfl | member
    · exact between
    · have later := inside.headers other member
      exact { later with start_le := Nat.le_trans before_payload later.start_le }
  · exact inside.alignments
  · have opening : header.payload.start = before.cursor.position + size := by rw [payload]
    have ending : header.payload.stop = after.cursor.position := by rw [payload, stop]
    have room := inside.room
    rw [List.map_cons, List.sum_cons]
    simp only [Event.weight, Event.elements?, Event.header?, Option.elim_none, Option.elim_some,
      SectionHeader.unread]
    split
    · next unread =>
      rw [eq_nil_of_unread unread homes, List.map_nil, List.sum_nil, Span.size]
      omega
    · omega

theorem laidOut_sectionsUpTo {limit : Nat} (h : sectionsUpTo limit before = .ok () after) :
    ∃ noted, after.events.toList = before.events.toList ++ noted ∧
      LaidOut before.cursor.position noted after.cursor.position := by
  induction limit generalizing before with
  | zero =>
    cases h
    exact ⟨[], by simp, .nil (Nat.le_refl _)⟩
  | succ limit ih =>
    obtain ⟨_, _, got, h⟩ := state_bind_eq_ok.1 h
    cases got
    split at h
    · cases h
      exact ⟨[], by simp, .nil (Nat.le_refl _)⟩
    · obtain ⟨_, middle, one, more⟩ := state_bind_eq_ok.1 h
      obtain ⟨noted, events, first⟩ := laidOut_oneSection one
      obtain ⟨later, events', second⟩ := ih more
      exact ⟨noted ++ later, by rw [events', events, List.append_assoc], first.append second⟩

end Scanner

/-- The events of a file without a fault are laid out in it, behind its magic bytes. -/
theorem Transcript.laidOut_of_ofBytes {file : Bytes} {events : List Event}
    (h : Transcript.ofBytes file = ⟨events, none⟩) : LaidOut 4 events file.length := by
  unfold Transcript.ofBytes at h
  split at h
  · next scan scanned =>
    obtain ⟨rfl, -⟩ := Transcript.mk.inj h
    obtain ⟨_, _, opening, scanned⟩ := state_bind_eq_ok.1 scanned
    obtain ⟨_, header, rfl⟩ := Scanner.read_eq_ok.1 opening
    obtain ⟨size, some, within, rfl⟩ := Reader.advances_header _ _ _ header
    obtain ⟨_, _, got, scanned⟩ := state_bind_eq_ok.1 scanned
    cases got
    have start : (Cursor.ofBytes file).In file := ⟨Nat.zero_le _, rfl⟩
    obtain ⟨_, inside, -, -, -⟩ := Scanner.passes_sectionsUpTo (start.advance within) scanned
    obtain ⟨noted, events, laidOut⟩ := Scanner.laidOut_sectionsUpTo scanned
    rw [events]
    have opening : LaidOut 4 [] ((Cursor.ofBytes file).advance size).position :=
      .nil (Nat.le_trans some (Nat.le_add_left size 0))
    have ending : LaidOut scan.cursor.position [] file.length := .nil inside.1
    have whole := (opening.append laidOut).append ending
    rw [List.append_nil] at whole
    exact whole
  · cases h

end StaticLink
