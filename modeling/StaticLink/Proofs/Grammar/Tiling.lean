import StaticLink.Proofs.Grammar.Modules
import StaticLink.Proofs.Scan.Placement

/-!
# How sections lie in their file

The sections of a file without a fault lie directly one behind the other, from the header of the
file to its end, and the bytes of a data segment lie in the section of data that it stands in.

* `Span.Spaced`: spans with something between each and the next.
* `SectionHeader.Tile`, `Tiles`: sections that leave nothing of a file between or behind them.
* `Grammar.Section.opening`, `Grammar.Section.entryEvents`: the events of a section.
* `Transcript.tiles_of_ofBytes`: the sections of a file tile it, and its data segments lie in them.
-/

namespace StaticLink

/-! ## Spans with something between them -/

/-- The spans lie in their order between two positions, and before each there is something that is
in none of them. -/
structure Span.Spaced (start : Nat) (spans : List Span) (stop : Nat) : Prop where
  le : start ≤ stop
  inside : ∀ span ∈ spans, start < span.start ∧ span.start ≤ span.stop ∧ span.stop ≤ stop
  apart : spans.Pairwise fun first second => first.stop < second.start

namespace Span.Spaced

variable {start middle stop : Nat} {spans others : List Span} {span : Span}

theorem nil (le : start ≤ stop) : Spaced start [] stop := ⟨le, by simp, .nil⟩

theorem singleton (first : start < span.start) (size : span.start ≤ span.stop) :
    Spaced start [span] span.stop where
  le := by omega
  inside := by
    intro other member
    obtain rfl := List.mem_singleton.1 member
    exact ⟨first, size, Nat.le_refl _⟩
  apart := List.pairwise_singleton _ _

theorem append (first : Spaced start spans middle) (second : Spaced middle others stop) :
    Spaced start (spans ++ others) stop where
  le := Nat.le_trans first.le second.le
  inside := by
    intro span member
    have := first.le
    have := second.le
    rcases List.mem_append.1 member with member | member
    · have := first.inside span member
      omega
    · have := second.inside span member
      omega
  apart := by
    refine List.pairwise_append.2 ⟨first.apart, second.apart, fun one member two member' => ?_⟩
    exact Nat.lt_of_le_of_lt (first.inside one member).2.2 (second.inside two member').1

end Span.Spaced

/-! ## Sections that tile a file -/

/-- The section is the one of this number. At this position of the file stands its identifier, then
the size of its contents, then the contents, of which the payload is what is left at their end. -/
structure SectionHeader.Tile (file : Bytes) (number start : Nat) (header : SectionHeader) :
    Prop where
  index : header.index = .ofNat number
  head : ∃ size value, file.slice? ⟨start, header.range.start⟩ = some (header.id.toByte :: size) ∧
    Leb128.decodeUInt32 size = .ok (value, size.length) ∧ value.toNat = header.range.size
  payload_start : header.range.start ≤ header.payload.start
  payload_le : header.payload.start ≤ header.payload.stop
  payload_stop : header.payload.stop = header.range.stop

/-- The sections, of which the first has this number, lie directly one behind the other from this
position to the end of the file. -/
def Tiles (file : Bytes) : (number start : Nat) → (headers : List SectionHeader) → Prop
  | _, start, [] => start = file.length
  | number, start, header :: later =>
    header.Tile file number start ∧ Tiles file (number + 1) header.range.stop later

/-- The header of the section that the events end in. -/
def lastHeader? (events : List Event) : Option SectionHeader :=
  (events.filterMap Event.header?).getLast?

/-- The bytes of each data segment among the events lie in the payload of the section of data that
was opened last before it. -/
def DataInside (events : List Event) : Prop :=
  ∀ before event after data, events = before ++ event :: after → event.dataSpan? = some data →
    ∃ header, lastHeader? before = some header ∧ header.id = .data ∧
      header.payload.start ≤ data.start ∧ data.start ≤ data.stop ∧
      data.stop ≤ header.payload.stop

/-- What comes behind a section has the section before it if it has no other. -/
theorem lastHeader?_append {before events : List Event} {header : SectionHeader}
    (last : lastHeader? events = some header) : lastHeader? (before ++ events) = some header := by
  unfold lastHeader? at last ⊢
  rw [List.filterMap_append, List.getLast?_append, last, Option.some_or]

/-! ## One section -/

namespace Grammar.Section

variable {file rest : Bytes} (place : Place) (node : Section)

/-- What the section at this place is opened with. -/
def opening : SectionHeader := node.contents.opening place.sections (node.inside place)

/-- The events of the section at this place that come behind its opening. -/
def entryEvents : List Event :=
  node.contents.payloadEvents ((node.inside place).past node.contents.headBytes.length)

theorem events_eq : node.events place = .opening (node.opening place) :: node.entryEvents place :=
  rfl

theorem position_after : (node.after place).position = place.position + node.bytes.length := by
  rw [bytes, List.length_append, ← Nat.add_assoc]
  rfl

theorem range_stop : (node.opening place).range.stop = (node.after place).position := rfl

theorem payload_start_le :
    (node.opening place).payload.start ≤ (node.opening place).payload.stop := by
  show _ + node.contents.headBytes.length ≤ _ + node.contents.bytes.length
  rw [Contents.bytes, List.length_append]
  omega

/-- Behind the opening of a section come the events of this section. -/
theorem home_of_mem_entryEvents {event : Event} (member : event ∈ node.entryEvents place) :
    event.home = some node.contents.id := by
  have scanned := Scanner.accepts_oneSection.complete place [] node []
  obtain ⟨header, size, -, -, -, -, -, -, entries, -⟩ := Scanner.oneSection_eq_ok scanned
  obtain ⟨_, noted, -, -, events, homes, -⟩ := Scanner.entries_sectionEntries header _ () _ entries
  have same : node.events place = .opening header :: noted := events
  obtain ⟨opening, same⟩ := List.cons.inj same
  rw [← Event.opening.inj opening, ← same] at homes
  exact homes event member

theorem filterMap_header? : (node.events place).filterMap Event.header? = [node.opening place] := by
  have others : (node.entryEvents place).filterMap Event.header? = [] :=
    List.filterMap_eq_nil_iff.2 fun _ member =>
      Event.header?_of_home (node.home_of_mem_entryEvents place member)
  show node.opening place :: (node.entryEvents place).filterMap Event.header? = _
  rw [others]

theorem tile (ahead : file.drop place.position = node.bytes ++ rest) :
    (node.opening place).Tile file place.sections place.position where
  index := rfl
  head := by
    rw [bytes, List.append_assoc] at ahead
    have size : (node.opening place).range.size = node.contents.bytes.length :=
      Nat.add_sub_cancel_left _ _
    refine ⟨node.size.bytes, node.size.value, Bytes.slice?_of_drop ahead, ?_, ?_⟩
    · exact (decodes_word _ _ _).2 ⟨node.size, [], (List.append_nil _).symm, rfl, rfl⟩
    · rw [size, node.filled]
  payload_start := Nat.le_add_right _ _
  payload_le := node.payload_start_le place
  payload_stop := rfl

/-- The bytes of data segments that stand in a row lie there in this order. Before those of each
stands what its entry starts with. -/
theorem spaced_data (items : List DataSegment) (number : Nat) :
    Span.Spaced place.position
      ((rowEvents (fun i place segment => [DataSegment.event segment i place])
        (Place.behind DataSegment.bytes) number place items).filterMap Event.dataSpan?)
      (place.position + (items.flatMap DataSegment.bytes).length) := by
  induction items generalizing place number with
  | nil => exact .nil (Nat.le_refl _)
  | cons segment items ih =>
    let data : Span := ⟨place.position + segment.headBytes.length,
      place.position + segment.headBytes.length + segment.data.length⟩
    have head : 0 < segment.headBytes.length := by
      rw [DataSegment.headBytes, List.length_append, List.length_append, Offset.bytes,
        List.cons_append, List.length_cons]
      omega
    have one : Span.Spaced place.position [data] data.stop :=
      .singleton (Nat.lt_add_of_pos_right head) (Nat.le_add_right _ _)
    have behind : (Place.behind DataSegment.bytes place segment).position = data.stop := by
      show place.position + segment.bytes.length = _
      rw [DataSegment.bytes, List.length_append, ← Nat.add_assoc]
    have later := ih (Place.behind DataSegment.bytes place segment) (number + 1)
    rw [behind] at later
    have stop : place.position + ((segment :: items).flatMap DataSegment.bytes).length =
        data.stop + (items.flatMap DataSegment.bytes).length := by
      rw [List.flatMap_cons, List.length_append, ← Nat.add_assoc, ← behind]
      rfl
    rw [stop]
    exact one.append later

theorem spaced_entryEvents :
    Span.Spaced (node.opening place).payload.start
      ((node.entryEvents place).filterMap Event.dataSpan?)
      (node.opening place).payload.stop := by
  by_cases data : node.contents.id = .data
  · obtain ⟨size, contents, filled⟩ := node
    cases contents with
    | vector count entries counted =>
      cases entries with
      | data items =>
        have spaced := spaced_data ((inside place ⟨size, .vector count (.data items) counted,
          filled⟩).past count.bytes.length) items 0
        have stop (start : Nat) : start + count.bytes.length +
            (items.flatMap DataSegment.bytes).length =
              start + (Contents.vector count (.data items) counted).bytes.length := by
          rw [Contents.bytes, List.length_append, ← Nat.add_assoc]
          rfl
        rw [Place.past, stop] at spaced
        exact spaced
      | _ => cases data
    | _ => cases data
  · have none : (node.entryEvents place).filterMap Event.dataSpan? = [] :=
      List.filterMap_eq_nil_iff.2 fun _ member =>
        Event.dataSpan?_of_home (node.home_of_mem_entryEvents place member) data
    rw [none]
    exact .nil (node.payload_start_le place)

theorem spaced_events :
    Span.Spaced place.position ((node.events place).filterMap Event.dataSpan?)
      (node.after place).position := by
  have spaced := node.spaced_entryEvents place
  have before : place.position ≤ (node.opening place).payload.start := by
    show _ ≤ place.position + node.headBytes.length + _
    omega
  rw [events_eq, List.filterMap_cons_none rfl]
  exact (Span.Spaced.nil before).append spaced

theorem dataInside_events : DataInside (node.events place) := by
  intro before event after data whole spanned
  rw [events_eq] at whole
  rcases List.cons_eq_append_iff.1 whole with ⟨rfl, same⟩ | ⟨before, rfl, entries⟩
  · obtain ⟨rfl, -⟩ := List.cons.inj same
    cases spanned
  · have member : event ∈ node.entryEvents place := by
      rw [entries]
      exact List.mem_append_right _ List.mem_cons_self
    have none : before.filterMap Event.header? = [] := by
      refine List.filterMap_eq_nil_iff.2 fun other member => ?_
      have listed : other ∈ node.entryEvents place := by
        rw [entries]
        exact List.mem_append_left _ member
      exact Event.header?_of_home (node.home_of_mem_entryEvents place listed)
    refine ⟨node.opening place, ?_, ?_, ?_⟩
    · show (node.opening place :: before.filterMap Event.header?).getLast? = _
      rw [none]
      rfl
    · by_contra other
      rw [Event.dataSpan?_of_home (node.home_of_mem_entryEvents place member) other] at spanned
      cases spanned
    · have within := (node.spaced_entryEvents place).inside data
        (List.mem_filterMap.2 ⟨event, member, spanned⟩)
      omega

end Grammar.Section

/-! ## Whole files -/

theorem DataInside.append {events later : List Event} (first : DataInside events)
    (second : DataInside later) : DataInside (events ++ later) := by
  intro before event after data whole spanned
  rcases List.append_eq_append_iff.1 whole with ⟨front, rfl, rest⟩ | ⟨back, rfl, rest⟩
  · obtain ⟨header, last, inside⟩ := second front event after data rest spanned
    exact ⟨header, lastHeader?_append last, inside⟩
  · cases back with
    | nil =>
      obtain ⟨header, last, inside⟩ := second [] event after data rest.symm spanned
      cases last
    | cons other back =>
      obtain ⟨rfl, -⟩ := List.cons.inj rest
      exact first before event back data rfl spanned

namespace Grammar

variable {file front : Bytes}

/-- The events of sections that stand in a row, of which the first has this number and place. -/
abbrev sectionEvents (number : Nat) (place : Place) (nodes : List Section) : List Event :=
  rowEvents (fun _ => Section.events) Section.after number place nodes

theorem sectionEvents_cons (number : Nat) (place : Place) (node : Section) (nodes : List Section) :
    sectionEvents number place (node :: nodes) =
      node.events place ++ sectionEvents (number + 1) (node.after place) nodes := rfl

theorem headers_cons (number : Nat) (place : Place) (node : Section) (nodes : List Section) :
    (sectionEvents number place (node :: nodes)).filterMap Event.header? =
      node.opening place ::
        (sectionEvents (number + 1) (node.after place) nodes).filterMap Event.header? := by
  rw [sectionEvents_cons, List.filterMap_append, Section.filterMap_header?, List.singleton_append]

/-- The sections that a file ends with tile it from where they start. -/
theorem tiles_sections (nodes : List Section) (place : Place) (number : Nat)
    (whole : file = front ++ nodes.flatMap Section.bytes) (here : place.position = front.length) :
    Tiles file place.sections place.position
      ((sectionEvents number place nodes).filterMap Event.header?) := by
  induction nodes generalizing place number front with
  | nil =>
    rw [List.flatMap_nil, List.append_nil] at whole
    rw [whole]
    exact here
  | cons node nodes ih =>
    rw [List.flatMap_cons] at whole
    have ahead : file.drop place.position = node.bytes ++ nodes.flatMap Section.bytes := by
      rw [whole, here, List.drop_left]
    have behind : (node.after place).position = (front ++ node.bytes).length := by
      rw [Section.position_after, here, List.length_append]
    rw [headers_cons]
    refine ⟨node.tile place ahead, ?_⟩
    exact ih (node.after place) (number + 1) (by rw [whole, List.append_assoc]) behind

theorem spaced_sections (nodes : List Section) (place : Place) (number : Nat) :
    Span.Spaced place.position ((sectionEvents number place nodes).filterMap Event.dataSpan?)
      (nodes.foldl Section.after place).position := by
  induction nodes generalizing place number with
  | nil => exact .nil (Nat.le_refl _)
  | cons node nodes ih =>
    rw [sectionEvents_cons, List.filterMap_append]
    exact (node.spaced_events place).append (ih (node.after place) (number + 1))

theorem dataInside_sections (nodes : List Section) (place : Place) (number : Nat) :
    DataInside (sectionEvents number place nodes) := by
  induction nodes generalizing place number with
  | nil =>
    intro before event after data whole
    exact absurd whole (List.append_ne_nil_of_right_ne_nil _ (List.cons_ne_nil _ _)).symm
  | cons node nodes ih => exact (node.dataInside_events place).append (ih _ _)

end Grammar

/-- The sections of a file without a fault lie directly one behind the other from the header of the
file to its end and are numbered in this order. The bytes of its data segments lie one behind the
other, each in the payload of the section of data that was opened last. -/
theorem Transcript.tiles_of_ofBytes {file : Bytes} {events : List Event}
    (h : Transcript.ofBytes file = ⟨events, none⟩) :
    Header.encode <+: file ∧ Tiles file 0 8 (events.filterMap Event.header?) ∧
      DataInside events ∧
      (events.filterMap Event.dataSpan?).Pairwise fun first second =>
        first.stop < second.start := by
  obtain ⟨module, rfl, rfl⟩ := (Transcript.ofBytes_eq_iff file events).1 h
  have tiles : Tiles module.bytes 0 8 (module.events.filterMap Event.header?) :=
    Grammar.tiles_sections module.sections Grammar.Module.start 0 rfl rfl
  exact ⟨List.prefix_append _ _, tiles,
    Grammar.dataInside_sections _ _ _, (Grammar.spaced_sections _ _ _).apart⟩

/-- A file of one section, which holds a segment of two bytes and one of a single byte. -/
def twoSegments : Bytes :=
  Header.encode ++
    [11, 14, 2, 0, 0x41, 0, 0x0b, 2, 7, 8, 0, 0x41, 2, 0x0b, 1, 9]

theorem Transcript.tiles_twoSegments :
    Transcript.ofBytes twoSegments =
        ⟨[.opening ⟨0, .data, none, ⟨10, 24⟩, ⟨11, 24⟩, some 2⟩, .dataSegment 0 0 0 ⟨16, 18⟩,
          .dataSegment 1 0 2 ⟨23, 24⟩], none⟩ ∧
      Tiles twoSegments 0 8 [⟨0, .data, none, ⟨10, 24⟩, ⟨11, 24⟩, some 2⟩] ∧
      List.Pairwise (fun first second => first.stop < second.start) [⟨16, 18⟩, Span.mk 23 24] := by
  have whole : Transcript.ofBytes twoSegments =
      ⟨[.opening ⟨0, .data, none, ⟨10, 24⟩, ⟨11, 24⟩, some 2⟩, .dataSegment 0 0 0 ⟨16, 18⟩,
        .dataSegment 1 0 2 ⟨23, 24⟩], none⟩ := by decide +kernel
  obtain ⟨-, tiles, -, apart⟩ := Transcript.tiles_of_ofBytes whole
  exact ⟨whole, tiles, apart⟩

end StaticLink
