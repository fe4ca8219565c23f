import StaticLink.Proofs.Grammar.Reading
import StaticLink.Proofs.Scan.Entries

/-!
# Steps of a scan and the syntax that they accept

A step that scans a node notes its events, which depend on the place of the node, and where it
succeeds it has passed such a node.

* `Grammar.Place.scan`: the scan that has come to a place.
* `Scanner.Accepts`: the step for a kind of node.
* `Scanner.Accepts.times`: the step for a list, from the step for an item.
* `Scanner.accepts_importEntry`, `Scanner.accepts_dataSegment` and the like: the entries of vector
  sections.
-/

namespace StaticLink

/-- The scan that has come to this place and has noted these events. -/
def Grammar.Place.scan (place : Place) (noted : List Event) : Scan where
  cursor := ⟨place.position, []⟩
  sections := .ofNat place.sections
  functionImports := .ofNat place.imports.functions
  tableImports := .ofNat place.imports.tables
  memoryImports := .ofNat place.imports.memories
  globalImports := .ofNat place.imports.globals
  events := noted.toArray

namespace Scan

open Grammar (Place)

theorem scan_past (place : Place) (noted later : List Event) (size : Nat) :
    (place.scan noted).past size later = (place.past size).scan (noted ++ later) := rfl

theorem ahead_rest (scan : Scan) : scan.ahead scan.cursor.rest = scan := rfl

/-- Wherever a scan has come to is a place. -/
theorem exists_place (scan : Scan) :
    ∃ place noted, ∀ rest, scan.ahead rest = (Place.scan place noted).ahead rest := by
  refine ⟨⟨scan.cursor.position, scan.sections.toNat, scan.functionImports.toNat,
    scan.tableImports.toNat, scan.memoryImports.toNat, scan.globalImports.toNat⟩,
    scan.events.toList, fun rest => ?_⟩
  unfold Place.scan ahead
  simp only [UInt32.ofNat_toNat, Array.toArray_toList]

end Scan

namespace Scanner

open Reader
open Grammar (Place rowEvents)

variable {α β ν : Type} {reader : Reader α} {next : α → Scanner β} {value : ν → α}
  {bytes : ν → Bytes} {events : Place → ν → List Event} {after : Place → ν → Place}
  {scan last : Scan} {ahead : Bytes} {step : Scanner Unit}

/-! ## Accepting a kind of node -/

/-- The step takes the bytes of each node, notes its events, and succeeds nowhere else. Behind the
node the scan has come to the place `after` it. -/
structure Accepts (step : Scanner Unit) (bytes : ν → Bytes) (events : Place → ν → List Event)
    (after : Place → ν → Place) : Prop where
  complete : ∀ place noted node rest, step ((place.scan noted).ahead (bytes node ++ rest)) =
    .ok () (((after place node).scan (noted ++ events place node)).ahead rest)
  sound : ∀ {scan ahead last}, step (Scan.ahead scan ahead) = .ok () last →
    ∃ node rest, ahead = bytes node ++ rest

/-- Where the step succeeds, it has passed a node. -/
theorem Accepts.eq_ok (accepts : Accepts step bytes events after) {place : Place}
    {noted : List Event} (h : step ((place.scan noted).ahead ahead) = .ok () last) :
    ∃ node rest, ahead = bytes node ++ rest ∧
      last = ((after place node).scan (noted ++ events place node)).ahead rest := by
  obtain ⟨node, rest, rfl⟩ := accepts.sound h
  have reads := accepts.complete place noted node rest
  exact ⟨node, rest, rfl, (EStateM.Result.ok.inj (h.symm.trans reads)).2⟩

/-- What is left to do after a step has succeeded. -/
theorem Accepts.of_bind (accepts : Accepts step bytes events after) {next : Unit → Scanner β}
    {result : β} (h : (step >>= next) (scan.ahead ahead) = .ok result last) :
    ∃ node rest middle, ahead = bytes node ++ rest ∧
      next () (Scan.ahead middle rest) = .ok result last := by
  obtain ⟨⟨⟩, middle, here, there⟩ := state_bind_eq_ok.1 h
  obtain ⟨place, noted, same⟩ := scan.exists_place
  rw [same] at here
  obtain ⟨node, rest, whole, rfl⟩ := accepts.eq_ok here
  exact ⟨node, rest, _, whole, there⟩

/-- What is left to do after a reader has succeeded. -/
theorem of_read_bind (accepts : Reader.Accepts reader bytes value) {result : β}
    (h : (liftM reader >>= next) (scan.ahead ahead) = .ok result last) :
    ∃ node rest, ahead = bytes node ++ rest ∧
      next (value node) ((scan.past (bytes node).length []).ahead rest) = .ok result last := by
  obtain ⟨found, middle, here, there⟩ := state_bind_eq_ok.1 h
  obtain ⟨cursor, read, rfl⟩ := read_eq_ok.1 here
  obtain ⟨node, rest, whole, rfl, rfl⟩ := accepts.eq_ok read
  refine ⟨node, rest, whole, ?_⟩
  rw [← there]
  unfold Scan.past Scan.ahead
  simp only [List.append_nil, Array.toArray_toList]

/-- A scan knows where it stands. -/
theorem of_position_bind {next : Nat → Scanner β} {result : β}
    (h : (liftM position >>= next) scan = .ok result last) :
    next scan.cursor.position scan = .ok result last := h

/-- A step that does nothing but read and note events. -/
theorem accepts_of_notes
    (notes : ∀ place noted node, Notes step (Place.scan place noted) (bytes node) ()
      (events place node))
    (sound : ∀ {scan ahead last}, step (Scan.ahead scan ahead) = .ok () last →
      ∃ node rest, ahead = bytes node ++ rest) :
    Accepts step bytes events (Place.behind bytes) where
  complete place noted node rest := notes place noted node rest
  sound := sound

theorem Accepts.notes (accepts : Accepts step bytes events (Place.behind bytes)) (place : Place)
    (noted : List Event) (node : ν) :
    Notes step (place.scan noted) (bytes node) () (events place node) :=
  accepts.complete place noted node

/-! ## Lists -/

theorem Accepts.timesFrom (step : UInt32 → Scanner Unit) {events : Nat → Place → ν → List Event}
    (each : ∀ i, Accepts (step (.ofNat i)) bytes (events i) after) (count first : Nat) :
    Accepts (timesFrom step count (.ofNat first))
      (fun items : { items : List ν // count = items.length } => items.1.flatMap bytes)
      (fun place items => rowEvents events after first place items.1)
      fun place items => items.1.foldl after place where
  complete := by
    rintro place noted ⟨items, rfl⟩ rest
    induction items generalizing first place noted with
    | nil =>
      show EStateM.Result.ok () _ = _
      rw [rowEvents, List.append_nil]
      rfl
    | cons item items ih =>
      rw [List.flatMap_cons, List.append_assoc, rowEvents, ← List.append_assoc noted]
      refine state_bind_eq_ok.2 ⟨(), _, (each first).complete place noted item _, ?_⟩
      rw [ofNat_add_one]
      exact ih (first + 1) _ _
  sound := by
    intro scan ahead last h
    induction count generalizing first scan ahead with
    | zero => exact ⟨⟨[], rfl⟩, ahead, rfl⟩
    | succ count ih =>
      obtain ⟨item, rest, middle, one, h⟩ := (each first).of_bind h
      rw [ofNat_add_one] at h
      obtain ⟨⟨items, rfl⟩, rest, others⟩ := ih _ h
      refine ⟨⟨item :: items, rfl⟩, rest, ?_⟩
      rw [one, others, List.flatMap_cons, List.append_assoc]

/-- As many items as are counted. -/
theorem Accepts.times (step : UInt32 → Scanner Unit) {events : Nat → Place → ν → List Event}
    (each : ∀ i, Accepts (step (.ofNat i)) bytes (events i) after) (count : UInt32) :
    Accepts (times count step)
      (fun items : { items : List ν // count.toNat = items.length } => items.1.flatMap bytes)
      (fun place items => rowEvents events after 0 place items.1)
      fun place items => items.1.foldl after place :=
  .timesFrom step each count.toNat 0

/-- Behind items that are no imports. -/
theorem foldl_behind (place : Place) (items : List ν) :
    items.foldl (Place.behind bytes) place = Place.behind (List.flatMap bytes) place items := by
  induction items generalizing place with
  | nil => rfl
  | cons item items ih =>
    rw [List.foldl_cons, ih]
    simp only [Place.behind, Place.past, List.flatMap_cons, List.length_append, Nat.add_assoc]

theorem Accepts.times_behind (step : UInt32 → Scanner Unit)
    {events : Nat → Place → ν → List Event}
    (each : ∀ i, Accepts (step (.ofNat i)) bytes (events i) (Place.behind bytes)) (count : UInt32) :
    Accepts (Scanner.times count step)
      (fun items : { items : List ν // count.toNat = items.length } => items.1.flatMap bytes)
      (fun place items => rowEvents events (Place.behind bytes) 0 place items.1)
      (Place.behind fun items => items.1.flatMap bytes) := by
  have all := Accepts.times step each count
  simp only [foldl_behind] at all
  exact all

/-! ## Entries of vector sections -/

theorem accepts_importEntry :
    Accepts importEntry Grammar.Import.bytes (fun place entry => [entry.event place.imports])
      Grammar.Import.after where
  complete := by
    rintro place noted ⟨module, field, imported⟩ rest
    unfold importEntry Grammar.Import.bytes
    simp only [List.append_assoc]
    rw [(notes_read (accepts_text.complete module)).run_bind,
      (notes_read (accepts_text.complete field)).run_bind, run_position_bind]
    have kind_read (kind : ExternalKind) (taken rest : Bytes) (scan : Scan)
        (next : ExternalKind → Scanner Unit) :
        (liftM (code ExternalKind.ofByte) >>= next) (scan.ahead (kind.toByte :: taken ++ rest)) =
          next kind ((scan.past 1 []).ahead (taken ++ rest)) :=
      (notes_read (accepts_externalKind.complete kind)).run_bind next (taken ++ rest)
    -- Behind the kind, the type is read and the import is counted.
    cases imported <;> unfold Grammar.Imported.bytes <;> rw [kind_read] <;> dsimp only
    case' function type => rw [(notes_read (accepts_word.complete type)).run_bind]
    case' table limits => rw [(notes_read (accepts_tableType.complete limits)).run_bind]
    case' memory limits => rw [(notes_read (accepts_limits.complete limits)).run_bind]
    case' global type => rw [(notes_read (accepts_globalType.complete type)).run_bind]
    all_goals
      show EStateM.Result.ok () _ = _
      simp only [Scan.past, Scan.ahead, Place.scan, Grammar.Import.after, Grammar.Import.bytes,
        Grammar.Imported.bytes, Grammar.Import.event, Grammar.ImportCounts.add, ofNat_add_one,
        List.append_nil, List.push_toArray, List.length_append, List.length_cons, Nat.add_assoc,
        Nat.add_comm 1, id]
  sound := by
    intro scan ahead last h
    obtain ⟨module, rest, one, h⟩ := of_read_bind accepts_text h
    obtain ⟨field, rest, two, h⟩ := of_read_bind accepts_text h
    replace h := of_position_bind h
    obtain ⟨kind, rest', three, h⟩ := of_read_bind accepts_externalKind h
    -- Behind the kind there is only the type, and a tag has none that is supported.
    suffices ∃ imported : Grammar.Imported, ∃ rest,
        [kind.toByte] ++ rest' = imported.bytes ++ rest by
      obtain ⟨imported, rest, whole⟩ := this
      refine ⟨⟨module, field, imported⟩, rest, ?_⟩
      rw [one, two, three, whole, Grammar.Import.bytes]
      simp
    cases kind with
    | function =>
      obtain ⟨type, rest, whole, -⟩ := of_read_bind accepts_word h
      exact ⟨.function type, rest, by rw [whole]; rfl⟩
    | table =>
      obtain ⟨limits, rest, whole, -⟩ := of_read_bind accepts_tableType h
      exact ⟨.table limits, rest, by rw [whole]; rfl⟩
    | memory =>
      obtain ⟨limits, rest, whole, -⟩ := of_read_bind accepts_limits h
      exact ⟨.memory limits, rest, by rw [whole]; rfl⟩
    | global =>
      obtain ⟨type, rest, whole, -⟩ := of_read_bind accepts_globalType h
      exact ⟨.global type, rest, by rw [whole]; rfl⟩
    | tag => cases h

theorem accepts_exportEntry :
    Accepts exportEntry Grammar.Export.bytes (fun _ entry => [entry.event])
      (Place.behind Grammar.Export.bytes) := by
  refine accepts_of_notes (fun place noted entry => ?_) fun h => ?_
  · refine (notes_read (accepts_text.complete entry.name)).bind ?_
    refine (notes_read (accepts_externalKind.complete entry.kind)).bind ?_
    exact (notes_read (accepts_word.complete entry.index)).last (notes_emit _)
  · obtain ⟨name, rest, one, h⟩ := of_read_bind accepts_text h
    obtain ⟨kind, rest, two, h⟩ := of_read_bind accepts_externalKind h
    obtain ⟨index, rest, three, -⟩ := of_read_bind accepts_word h
    refine ⟨⟨name, kind, index⟩, rest, ?_⟩
    rw [one, two, three, Grammar.Export.bytes]
    simp

/-- The kind of elements of a segment. -/
theorem accepts_elementKind :
    Reader.Accepts (code fun
      | 0 => .ok ()
      | b => .error (.invalidElementType b)) (fun _ : Unit => [0]) id := by
  refine accepts_code (fun _ => rfl) fun decoded => ?_
  split at decoded
  · rfl
  · cases decoded

theorem accepts_elementSegment (number : Nat) :
    Accepts (elementSegment (.ofNat number)) Grammar.ElementSegment.bytes
      (fun _ segment => [segment.event number]) (Place.behind Grammar.ElementSegment.bytes) := by
  refine accepts_of_notes (fun place noted segment => ?_) fun h => ?_
  · obtain ⟨owner, offset, functions⟩ := segment
    refine (notes_read (accepts_segmentOwner.complete owner)).bind ?_
    refine (notes_read (accepts_constantI32.complete offset)).bind ?_
    have rest := accepts_indices.complete functions
    cases owner with
    | first flags zero => exact (notes_read rest).last (notes_emit _)
    | explicit flags two index =>
      refine (notes_read (accepts_elementKind.complete ())).bind ?_
      exact (notes_read rest).last (notes_emit _)
  · obtain ⟨owner, rest, one, h⟩ := of_read_bind accepts_segmentOwner h
    obtain ⟨offset, rest, two, h⟩ := of_read_bind accepts_constantI32 h
    cases owner with
    | first flags zero =>
      obtain ⟨functions, rest, three, -⟩ := of_read_bind accepts_indices h
      refine ⟨⟨.first flags zero, offset, functions⟩, rest, ?_⟩
      rw [one, two, three]
      simp [Grammar.ElementSegment.bytes, Grammar.ElementSegment.kindBytes,
        Grammar.SegmentOwner.isExplicit]
    | explicit flags known index =>
      obtain ⟨_, rest, three, h⟩ := of_read_bind accepts_elementKind h
      obtain ⟨functions, rest, four, -⟩ := of_read_bind accepts_indices h
      refine ⟨⟨.explicit flags known index, offset, functions⟩, rest, ?_⟩
      rw [one, two, three, four]
      simp [Grammar.ElementSegment.bytes, Grammar.ElementSegment.kindBytes,
        Grammar.SegmentOwner.isExplicit]

theorem accepts_dataSegment (number : Nat) :
    Accepts (dataSegment (.ofNat number)) Grammar.DataSegment.bytes
      (fun place segment => [segment.event number place])
      (Place.behind Grammar.DataSegment.bytes) := by
  refine accepts_of_notes (fun place noted segment => ?_) fun h => ?_
  · obtain ⟨owner, offset, size, data, counted⟩ := segment
    unfold Grammar.DataSegment.bytes Grammar.DataSegment.headBytes
    simp only [List.append_assoc]
    refine (notes_read (accepts_segmentOwner.complete owner)).bind ?_
    refine (notes_read (accepts_constantI32.complete offset)).bind ?_
    refine (notes_read (accepts_word.complete size)).bind ?_
    rw [counted]
    refine (notes_span data ?_).last (notes_emit _)
    simp only [Place.scan, Scan.past, Grammar.DataSegment.headBytes, List.length_append,
      Nat.add_assoc]
  · obtain ⟨owner, rest, one, h⟩ := of_read_bind accepts_segmentOwner h
    obtain ⟨offset, rest, two, h⟩ := of_read_bind accepts_constantI32 h
    obtain ⟨size, rest, three, h⟩ := of_read_bind accepts_word h
    obtain ⟨_, _, here, -⟩ := state_bind_eq_ok.1 h
    obtain ⟨_, read, -⟩ := read_eq_ok.1 here
    obtain ⟨count, enough, within, -⟩ := advances_span _ _ _ _ read
    -- All bytes that are counted were there.
    have within : count ≤ rest.length := within
    have counted : size.value.toNat = (rest.take size.value.toNat).length := by
      rw [List.length_take]
      omega
    refine ⟨⟨owner, offset, size, rest.take size.value.toNat, counted⟩,
      rest.drop size.value.toNat, ?_⟩
    rw [one, two, three, Grammar.DataSegment.bytes, Grammar.DataSegment.headBytes]
    simp

/-- An entry of one structure, whose event depends on what was imported. -/
theorem accepts_read_emit {α : Type} {reader : Reader α} {value : ν → α}
    (accepts : Reader.Accepts reader bytes value) {event : Scan → α → Event}
    {event' : Place → ν → Event}
    (same : ∀ place noted size more rest node,
      event (((Place.scan place noted).past size more).ahead rest) (value node) =
        event' place node) :
    Accepts (do
      let found ← reader
      emit (event (← get) found)) bytes (fun place node => [event' place node])
      (Place.behind bytes) := by
  refine accepts_of_notes (fun place noted node => ?_) fun h => ?_
  · refine (notes_read (accepts.complete node)).last (notes_get_bind fun rest => ?_)
    rw [same]
    exact notes_emit _
  · obtain ⟨node, rest, whole, -⟩ := of_read_bind accepts h
    exact ⟨node, rest, whole⟩

/-- A function, which is numbered behind the imported ones. -/
def functionEntry (number : UInt32) : Scanner Unit := do
  let typeIndex ← Reader.varUInt32
  emit (.function ((← get).functionImports + number) typeIndex)

theorem accepts_functionEntry (number : Nat) :
    Accepts (functionEntry (.ofNat number)) Grammar.Unsigned.bytes
      (fun place type => [.function (.ofNat (place.imports.functions + number)) type.value])
      (Place.behind Grammar.Unsigned.bytes) := by
  refine accepts_read_emit accepts_word fun place noted size more rest type => ?_
  rw [UInt32.ofNat_add]
  rfl

def tableEntry (number : UInt32) : Scanner Unit := do
  let limits ← Reader.tableType
  emit (.table ((← get).tableImports + number) limits)

theorem accepts_tableEntry (number : Nat) :
    Accepts (tableEntry (.ofNat number)) Grammar.Limits.tableBytes
      (fun place limits => [.table (.ofNat (place.imports.tables + number)) limits.value])
      (Place.behind Grammar.Limits.tableBytes) := by
  refine accepts_read_emit accepts_tableType fun place noted size more rest limits => ?_
  rw [UInt32.ofNat_add]
  rfl

def memoryEntry (number : UInt32) : Scanner Unit := do
  let limits ← Reader.limits
  emit (.memory ((← get).memoryImports + number) limits)

theorem accepts_memoryEntry (number : Nat) :
    Accepts (memoryEntry (.ofNat number)) Grammar.Limits.bytes
      (fun place limits => [.memory (.ofNat (place.imports.memories + number)) limits.value])
      (Place.behind Grammar.Limits.bytes) := by
  refine accepts_read_emit accepts_limits fun place noted size more rest limits => ?_
  rw [UInt32.ofNat_add]
  rfl

/-- A global, whose initial value is only checked. -/
def globalEntry (number : UInt32) : Scanner Unit := do
  let type ← Reader.globalType
  Reader.skipConstant
  emit (.global ((← get).globalImports + number) type)

theorem accepts_globalEntry (number : Nat) :
    Accepts (globalEntry (.ofNat number)) Grammar.Global.bytes
      (fun place entry => [.global (.ofNat (place.imports.globals + number)) entry.type])
      (Place.behind Grammar.Global.bytes) := by
  refine accepts_of_notes (fun place noted entry => ?_) fun h => ?_
  · refine (notes_read (accepts_globalType.complete entry.type)).bind ?_
    refine (notes_read (accepts_skipConstant.complete entry.initial)).last ?_
    rw [UInt32.ofNat_add]
    exact notes_get_bind fun _ => notes_emit _
  · obtain ⟨type, rest, one, h⟩ := of_read_bind accepts_globalType h
    obtain ⟨initial, rest, two, -⟩ := of_read_bind accepts_skipConstant h
    refine ⟨⟨type, initial⟩, rest, ?_⟩
    rw [one, two, Grammar.Global.bytes, List.append_assoc]

/-! ## Filling a section -/

/-- The step, which is told where to stop, takes the bytes of each node that ends there, and
comes there in no other way. -/
structure Fills (step : (stop : Nat) → Scanner Unit) (bytes : ν → Bytes)
    (events : Place → ν → List Event) (after : Place → ν → Place) : Prop where
  complete : ∀ place noted node rest,
    step (place.position + (bytes node).length) ((place.scan noted).ahead (bytes node ++ rest)) =
      .ok () (((after place node).scan (noted ++ events place node)).ahead rest)
  sound : ∀ {scan ahead stop last}, step stop (Scan.ahead scan ahead) = .ok () last →
    last.cursor.position = stop →
    ∃ node rest, ahead = bytes node ++ rest ∧ scan.cursor.position + (bytes node).length = stop

theorem Fills.run {step : Nat → Scanner Unit} (fills : Fills step bytes events after)
    (place : Place) (node : ν) {stop : Nat} (here : stop = place.position + (bytes node).length)
    (noted : List Event) (rest : Bytes) :
    step stop ((place.scan noted).ahead (bytes node ++ rest)) =
      .ok () (((after place node).scan (noted ++ events place node)).ahead rest) := by
  subst here
  exact fills.complete place noted node rest

/-- A step that finds its own end. -/
theorem Accepts.fills (accepts : Accepts step bytes events after)
    (moves : ∀ place node, (after place node).position = place.position + (bytes node).length) :
    Fills (fun _ => step) bytes events after where
  complete place noted node rest := accepts.complete place noted node rest
  sound := by
    intro scan ahead stop last h here
    obtain ⟨place, noted, same⟩ := scan.exists_place
    have position : scan.cursor.position = place.position :=
      congrArg (fun scan => scan.cursor.position) (same ahead)
    rw [same] at h
    obtain ⟨node, rest, whole, rfl⟩ := accepts.eq_ok h
    refine ⟨node, rest, whole, ?_⟩
    rw [position, ← moves, ← here]
    rfl

/-- As many items as are counted, which are no imports. -/
theorem fills_times (step : UInt32 → Scanner Unit) {events : Nat → Place → ν → List Event}
    (each : ∀ i, Accepts (step (.ofNat i)) bytes (events i) (Place.behind bytes)) (count : UInt32) :
    Fills (fun _ => times count step)
      (fun items : { items : List ν // count.toNat = items.length } => items.1.flatMap bytes)
      (fun place items => rowEvents events (Place.behind bytes) 0 place items.1)
      (Place.behind fun items => items.1.flatMap bytes) :=
  (Accepts.times_behind step each count).fills fun _ _ => rfl

/-- Bytes that are not looked into. -/
theorem fills_advanceTo :
    Fills (fun stop => liftM (advanceTo stop)) id (fun _ _ => []) (Place.behind id) where
  complete place noted payload rest :=
    @notes_advanceTo (place.scan noted) payload _ rfl rest
  sound := by
    intro scan ahead stop last h here
    obtain ⟨cursor, moved, rfl⟩ := read_eq_ok.1 h
    obtain ⟨size, -, within, rfl⟩ := advances_advanceTo stop _ _ _ moved
    refine ⟨ahead.take size, ahead.drop size, (List.take_append_drop size ahead).symm, ?_⟩
    have within : size ≤ ahead.length := within
    rw [id, List.length_take, Nat.min_eq_left within]
    exact here

theorem foldl_after (place : Place) (items : List Grammar.Import) :
    items.foldl Grammar.Import.after place = Grammar.Entries.after place (.imports items) := by
  induction items generalizing place with
  | nil => rfl
  | cons item items ih =>
    rw [List.foldl_cons, ih]
    simp only [Grammar.Entries.after, Grammar.Entries.bytes, Grammar.Entries.countsAfter,
      Grammar.Import.after, List.flatMap_cons, List.length_append, Nat.add_assoc, List.foldl_cons]

theorem fills_imports (count : UInt32) :
    Fills (fun _ => times count fun _ => importEntry)
      (fun items : { items : List Grammar.Import // count.toNat = items.length } =>
        items.1.flatMap Grammar.Import.bytes)
      (fun place items => (Grammar.Entries.imports items.1).events place)
      fun place items => (Grammar.Entries.imports items.1).after place := by
  have all := Accepts.times (fun _ => importEntry) (fun _ => accepts_importEntry) count
  simp only [foldl_after] at all
  exact all.fills fun _ _ => rfl

/-- The entries of a vector section with this count. -/
theorem fills_vectorEntries {id : SectionId} (vector : id.isVector = true) (count : UInt32) :
    Fills (vectorEntries id count)
      (fun entries : { entries : Grammar.Entries //
        entries.id = id ∧ ∀ number ∈ entries.number?, count.toNat = number } => entries.1.bytes)
      (fun place entries => entries.1.events place) fun place entries => entries.1.after place := by
  have functions := fills_times functionEntry accepts_functionEntry count
  have tables := fills_times tableEntry accepts_tableEntry count
  have memories := fills_times memoryEntry accepts_memoryEntry count
  have globals := fills_times globalEntry accepts_globalEntry count
  have exports := fills_times (fun _ => exportEntry) (fun _ => accepts_exportEntry) count
  have elements := fills_times elementSegment accepts_elementSegment count
  have data := fills_times dataSegment accepts_dataSegment count
  constructor
  · rintro place noted ⟨entries, rfl, counted⟩ rest
    cases entries with
    | types payload => exact fills_advanceTo.complete place noted payload rest
    | code payload => exact fills_advanceTo.complete place noted payload rest
    | imports items =>
      exact (fills_imports count).complete place noted ⟨items, counted _ rfl⟩ rest
    | functions items => exact functions.complete place noted ⟨items, counted _ rfl⟩ rest
    | tables items => exact tables.complete place noted ⟨items, counted _ rfl⟩ rest
    | memories items => exact memories.complete place noted ⟨items, counted _ rfl⟩ rest
    | globals items => exact globals.complete place noted ⟨items, counted _ rfl⟩ rest
    | exports items => exact exports.complete place noted ⟨items, counted _ rfl⟩ rest
    | elements items => exact elements.complete place noted ⟨items, counted _ rfl⟩ rest
    | data items => exact data.complete place noted ⟨items, counted _ rfl⟩ rest
  · intro scan ahead stop last h here
    have same {number : Nat} (counted : count.toNat = number) :
        ∀ other ∈ some number, count.toNat = other := by
      rintro _ ⟨⟩
      exact counted
    cases id with
    | custom => cases vector
    | start => cases vector
    | dataCount => cases vector
    | types =>
      obtain ⟨payload, rest, whole, stops⟩ := fills_advanceTo.sound h here
      exact ⟨⟨.types payload, rfl, nofun⟩, rest, whole, stops⟩
    | code =>
      obtain ⟨payload, rest, whole, stops⟩ := fills_advanceTo.sound h here
      exact ⟨⟨.code payload, rfl, nofun⟩, rest, whole, stops⟩
    | imports =>
      obtain ⟨⟨items, counted⟩, rest, whole, stops⟩ := (fills_imports count).sound h here
      exact ⟨⟨.imports items, rfl, same counted⟩, rest, whole, stops⟩
    | functions =>
      obtain ⟨⟨items, counted⟩, rest, whole, stops⟩ := functions.sound h here
      exact ⟨⟨.functions items, rfl, same counted⟩, rest, whole, stops⟩
    | tables =>
      obtain ⟨⟨items, counted⟩, rest, whole, stops⟩ := tables.sound h here
      exact ⟨⟨.tables items, rfl, same counted⟩, rest, whole, stops⟩
    | memories =>
      obtain ⟨⟨items, counted⟩, rest, whole, stops⟩ := memories.sound h here
      exact ⟨⟨.memories items, rfl, same counted⟩, rest, whole, stops⟩
    | globals =>
      obtain ⟨⟨items, counted⟩, rest, whole, stops⟩ := globals.sound h here
      exact ⟨⟨.globals items, rfl, same counted⟩, rest, whole, stops⟩
    | exports =>
      obtain ⟨⟨items, counted⟩, rest, whole, stops⟩ := exports.sound h here
      exact ⟨⟨.exports items, rfl, same counted⟩, rest, whole, stops⟩
    | elements =>
      obtain ⟨⟨items, counted⟩, rest, whole, stops⟩ := elements.sound h here
      exact ⟨⟨.elements items, rfl, same counted⟩, rest, whole, stops⟩
    | data =>
      obtain ⟨⟨items, counted⟩, rest, whole, stops⟩ := data.sound h here
      exact ⟨⟨.data items, rfl, same counted⟩, rest, whole, stops⟩

end Scanner

end StaticLink
