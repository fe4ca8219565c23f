import StaticLink.Proofs.Scan.Progress
import StaticLink.Proofs.Scan.Reading

/-!
# Scanning what was written

A step of a scan takes the bytes that are ahead of it and notes events. Steps that follow one
another take bytes that follow one another.

* `Scanner.Notes`: a step takes some bytes and notes some events.
* `Scanner.entryEvents`: the events of entries that stand one behind the other.
* `Scanner.notes_times`: a count of entries is read as these events.
-/

namespace StaticLink

namespace Scan

/-- The scan with these bytes ahead of it. -/
def ahead (scan : Scan) (rest : Bytes) : Scan :=
  { scan with cursor := ⟨scan.cursor.position, rest⟩ }

/-- The scan so many bytes further on, with these events noted. -/
def past (scan : Scan) (size : Nat) (noted : List Event) : Scan :=
  { scan with
    cursor := ⟨scan.cursor.position + size, scan.cursor.rest⟩
    events := (scan.events.toList ++ noted).toArray }

/-- The scan with so many more imported functions. -/
def withFunctions (scan : Scan) (more : UInt32) : Scan :=
  { scan with functionImports := scan.functionImports + more }

/-- The scan with so many more imported globals. -/
def withGlobals (scan : Scan) (more : UInt32) : Scan :=
  { scan with globalImports := scan.globalImports + more }

theorem past_past (scan : Scan) (size more : Nat) (noted later : List Event) :
    (scan.past size noted).past more later = scan.past (size + more) (noted ++ later) := by
  unfold past
  simp only [Nat.add_assoc, List.append_assoc]

theorem past_zero (scan : Scan) : scan.past 0 [] = scan := by
  unfold past
  simp only [List.append_nil, Array.toArray_toList]
  rfl

end Scan

namespace Scanner

open Leb128 (ofUInt32 paddedUInt32)
open Program (encodeNat segmentHeader)
open Reader

variable {α β : Type} {step : Scanner α} {next : α → Scanner β} {reader : Reader α} {scan : Scan}
  {one two taken : Bytes} {noted later : List Event} {value : α} {result : β}

/-- The step takes these bytes, whatever comes behind them, gives this value and notes these
events. -/
def Notes (step : Scanner α) (scan : Scan) (taken : Bytes) (value : α) (noted : List Event) : Prop :=
  ∀ rest, step (scan.ahead (taken ++ rest)) = .ok value ((scan.past taken.length noted).ahead rest)

theorem Notes.bind (first : Notes step scan one value noted)
    (second : Notes (next value) (scan.past one.length noted) two result later) :
    Notes (step >>= next) scan (one ++ two) result (noted ++ later) := by
  intro rest
  have there := second rest
  rw [Scan.past_past] at there
  rw [List.append_assoc, List.length_append]
  exact state_bind_eq_ok.2 ⟨value, _, first (two ++ rest), there⟩

theorem notes_pure (value : α) : Notes (pure value) scan [] value [] := by
  intro rest
  rw [List.length_nil, Scan.past_zero]
  rfl

/-- What is left to do takes no bytes. -/
theorem Notes.last (first : Notes step scan one value noted)
    (second : Notes (next value) (scan.past one.length noted) [] result later) :
    Notes (step >>= next) scan one result (noted ++ later) := by
  have both := first.bind second
  rw [List.append_nil] at both
  exact both

theorem notes_read (reads : Reads reader taken value) : Notes (liftM reader) scan taken value [] := by
  intro rest
  refine read_eq_ok.2 ⟨_, reads scan.cursor.position rest, ?_⟩
  unfold Scan.past Scan.ahead
  simp only [List.append_nil, Array.toArray_toList]

theorem notes_emit (event : Event) : Notes (emit event) scan [] () [event] := by
  intro rest
  show EStateM.Result.ok () _ = _
  unfold Scan.past Scan.ahead
  simp only [List.nil_append, List.length_nil, Nat.add_zero]
  rw [← List.push_toArray, Array.toArray_toList]

/-- A step may look at what was imported, which neither the bytes nor the events change. -/
theorem notes_get_bind {next : Scan → Scanner β}
    (notes : ∀ rest, Notes (next (scan.ahead rest)) scan taken result noted) :
    Notes (get >>= next) scan taken result noted :=
  fun rest => state_bind_eq_ok.2 ⟨_, _, rfl, notes (taken ++ rest) rest⟩

/-- A reader of two parts. -/
theorem read_bind (reader : Reader α) (next : α → Reader β) :
    (liftM (reader >>= next) : Scanner β) =
      (liftM reader : Scanner α) >>= fun value => liftM (next value) := by
  funext scan
  show read (reader >>= next) scan = _
  unfold read
  simp only [bind, EStateM.bind]
  show _ = EStateM.bind (read reader) (fun value => read (next value)) scan
  unfold EStateM.bind read
  rcases reader scan.cursor with ⟨value, cursor⟩ | ⟨fault, cursor⟩ <;> rfl

/-- What is read may depend on where the scan stands. -/
theorem notes_position_bind {next : Nat → Scanner β}
    (notes : Notes (next scan.cursor.position) scan taken result noted) :
    Notes (liftM position >>= next) scan taken result noted :=
  fun rest => state_bind_eq_ok.2 ⟨_, _, rfl, notes rest⟩

theorem notes_expectAt {stop : Nat} (here : scan.cursor.position = stop) :
    Notes (liftM (expectAt stop)) scan [] () [] := by
  unfold expectAt
  rw [read_bind]
  refine notes_position_bind ?_
  rw [if_neg (not_not_intro here)]
  exact notes_pure ()

theorem notes_span (taken : Bytes) {start : Nat} (here : scan.cursor.position = start) :
    Notes (liftM (span taken.length)) scan taken ⟨start, start + taken.length⟩ [] := by
  subst here
  intro rest
  refine read_eq_ok.2 ⟨⟨scan.cursor.position + taken.length, rest⟩, ?_, ?_⟩
  · refine state_bind_eq_ok.2 ⟨_, _, spanAhead_append _ _ _, ?_⟩
    show EStateM.Result.ok _ (Cursor.mk _ _) = _
    rw [List.drop_left]
  · unfold Scan.past Scan.ahead
    simp only [List.append_nil, Array.toArray_toList]

/-- A step is left to do after bytes that were read. -/
theorem Notes.run_bind (first : Notes step scan one value noted) (next : α → Scanner β)
    (rest : Bytes) :
    (step >>= next) (scan.ahead (one ++ rest)) =
      next value ((scan.past one.length noted).ahead rest) := by
  show EStateM.bind step next _ = _
  unfold EStateM.bind
  rw [first rest]

theorem run_position_bind (next : Nat → Scanner β) (scan : Scan) :
    (liftM position >>= next) scan = next scan.cursor.position scan := rfl

/-! ## Entries one behind the other -/

/-- The events of entries that stand one behind the other. An event may depend on the number of its
entry and on where it stands. -/
def entryEvents (bytes : β → Bytes) (event : UInt32 → Nat → β → Event) :
    (first : UInt32) → (position : Nat) → (items : List β) → List Event
  | _, _, [] => []
  | first, position, item :: rest =>
    event first position item ::
      entryEvents bytes event (first + 1) (position + (bytes item).length) rest

/-- Entries are numbered by words. -/
theorem ofNat_add_one (number : Nat) : UInt32.ofNat number + 1 = .ofNat (number + 1) :=
  (UInt32.ofNat_add number 1).symm

theorem entryEvents_eq_map (bytes : β → Bytes) (event : UInt32 → β → Event) (first position : Nat)
    (items : List β) :
    entryEvents bytes (fun i _ => event i) (.ofNat first) position items =
      (items.zipIdx first).map fun (item, i) => event (.ofNat i) item := by
  induction items generalizing first position with
  | nil => rfl
  | cons item rest ih =>
    rw [entryEvents, ofNat_add_one, ih, List.zipIdx_cons, List.map_cons]

variable {items : List β} {bytes : β → Bytes}

theorem notes_timesFrom {step : UInt32 → Scanner Unit} (event : UInt32 → Nat → β → Event)
    (each : ∀ i item size noted, item ∈ items → Notes (step i) (scan.past size noted) (bytes item) ()
      [event i (scan.cursor.position + size) item]) (first : UInt32) (size : Nat)
    (noted : List Event) :
    Notes (timesFrom step items.length first) (scan.past size noted) (items.flatMap bytes) ()
      (entryEvents bytes event first (scan.cursor.position + size) items) := by
  induction items generalizing first size noted with
  | nil => exact notes_pure ()
  | cons item rest ih =>
    have here := each first item size noted List.mem_cons_self
    have others := ih (fun i other size noted member =>
      each i other size noted (List.mem_cons_of_mem item member)) (first + 1)
      (size + (bytes item).length) (noted ++ [event first (scan.cursor.position + size) item])
    rw [← Scan.past_past, ← Nat.add_assoc] at others
    exact here.bind others

/-- A count of entries is read entry after entry. -/
theorem notes_times {step : UInt32 → Scanner Unit} {count : UInt32}
    (event : UInt32 → Nat → β → Event)
    (each : ∀ i item size noted, item ∈ items → Notes (step i) (scan.past size noted) (bytes item) ()
      [event i (scan.cursor.position + size) item])
    (counted : count.toNat = items.length) :
    Notes (times count step) scan (items.flatMap bytes) ()
      (entryEvents bytes event 0 scan.cursor.position items) := by
  have all := notes_timesFrom event each 0 0 []
  rw [Scan.past_zero] at all
  unfold times
  rw [counted]
  exact all

/-- As `notes_times`, for events that do not depend on where their entries stand. -/
theorem notes_times_zipIdx {step : UInt32 → Scanner Unit} {count : UInt32}
    (event : UInt32 → β → Event)
    (each : ∀ i item size noted, item ∈ items →
      Notes (step i) (scan.past size noted) (bytes item) () [event i item])
    (counted : count.toNat = items.length) :
    Notes (times count step) scan (items.flatMap bytes) ()
      (items.zipIdx.map fun (item, i) => event (.ofNat i) item) := by
  have all := notes_times (fun i _ => event i) each counted
  rw [show (0 : UInt32) = .ofNat 0 from rfl, entryEvents_eq_map] at all
  exact all

/-- As `notes_times`, for events that depend on nothing but their entries. -/
theorem notes_times_map {step : UInt32 → Scanner Unit} {count : UInt32} (event : β → Event)
    (each : ∀ i item size noted, item ∈ items →
      Notes (step i) (scan.past size noted) (bytes item) () [event item])
    (counted : count.toNat = items.length) :
    Notes (times count step) scan (items.flatMap bytes) () (items.map event) := by
  have all := notes_times_zipIdx (fun _ => event) each counted
  have plain : items.zipIdx.map (fun (item, _) => event item) = items.map event := by
    conv => rhs; rw [← List.zipIdx_map_fst 0 items, List.map_map]
    rfl
  rw [plain] at all
  exact all

theorem length_le_of_mem_flatMap {item : β} (bytes : β → Bytes) (member : item ∈ items) :
    (bytes item).length ≤ (items.flatMap bytes).length := by
  rw [List.flatMap_def]
  exact (List.sublist_flatten_of_mem (List.mem_map_of_mem member)).length_le

/-- Entries that take a byte or more each are no more than their bytes. -/
theorem length_le_flatMap (some : ∀ item ∈ items, 0 < (bytes item).length) :
    items.length ≤ (items.flatMap bytes).length := by
  induction items with
  | nil => exact Nat.le_refl 0
  | cons item rest ih =>
    obtain ⟨one, others⟩ := List.forall_mem_cons.1 some
    have more := ih others
    rw [List.flatMap_cons, List.length_append, List.length_cons]
    omega

/-- A count of entries that fit in a section is a word. -/
theorem counted_of_flatMap (bytes : β → Bytes) (some : ∀ item ∈ items, 0 < (bytes item).length)
    (small : (items.flatMap bytes).length < wordLimit) :
    (UInt32.ofNat items.length).toNat = items.length :=
  toNat_ofNat_length (Nat.lt_of_le_of_lt (length_le_flatMap some) small)

end Scanner

end StaticLink
