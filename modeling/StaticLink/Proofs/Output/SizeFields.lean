import StaticLink.Proofs.Leb128
import StaticLink.Proofs.Steps
import StaticLink.Writer

/-!
# Size fields inside one another

While a size field is open, other fields may be opened and filled behind it. Each of them is filled
when what it encloses is complete, at a position that was written long before. If fields are closed
in the order in which they nest, each ends up with the count of the bytes between its end and the
place where it was closed, and all other bytes are those that were written, in their order.

* `Writer.Step`: what is done to the bytes of a writer; `Writer.Call`: what a writer can be asked
  for, and `Writer.Call.steps`, the steps that this comes to.
* `Writer.Nested`: the steps close the fields that they open, the last one first.
* `Writer.Draft.Roomy`: the fields that are open lie in what was written. Every step keeps this.
* `Writer.Lays`: some bytes are what nested steps write, with all fields filled.
* `Writer.run_nested`: what nested calls leave behind.
-/

namespace StaticLink

/-- The positions that the field takes. -/
def SizeField.span (field : SizeField) : Span :=
  ⟨field.offset, field.offset + Leb128.paddedWidth32⟩

/-- The bytes that are in none of the fields, where the first of the bytes is at `start`. -/
def Bytes.outside (start : Nat) (fields : List SizeField) (bytes : Bytes) : Bytes :=
  ((bytes.zipIdx start).filter fun (_, position) =>
    decide (∀ field ∈ fields, position ∉ field.span)).map Prod.fst

namespace Bytes

variable {start : Nat} {fields others : List SizeField} {bytes : Bytes}

theorem outside_append (start : Nat) (fields : List SizeField) (first second : Bytes) :
    outside start fields (first ++ second) =
      outside start fields first ++ outside (start + first.length) fields second := by
  simp only [outside, List.zipIdx_append, List.filter_append, List.map_append]

/-- Only the fields at the positions of the bytes matter. -/
theorem outside_congr (subset : others ⊆ fields) (apart : ∀ field ∈ fields, field ∈ others ∨
    field.offset + Leb128.paddedWidth32 ≤ start ∨ start + bytes.length ≤ field.offset) :
    outside start fields bytes = outside start others bytes := by
  unfold outside
  congr 1
  apply List.filter_congr
  rintro ⟨byte, position⟩ member
  have place := List.mem_zipIdx member
  apply decide_eq_decide.2
  constructor
  · intro clear field other
    exact clear field (subset other)
  · intro clear field member inside
    have covers := Span.mem_def.1 inside
    simp only [SizeField.span] at covers
    rcases apart field member with other | apart
    · exact clear field other inside
    · omega

theorem outside_nil (start : Nat) (bytes : Bytes) : outside start [] bytes = bytes := by
  simp [outside]

/-- Bytes before all fields, or behind them, are outside. -/
theorem outside_of_apart (apart : ∀ field ∈ fields,
    field.offset + Leb128.paddedWidth32 ≤ start ∨ start + bytes.length ≤ field.offset) :
    outside start fields bytes = bytes := by
  rw [outside_congr (List.nil_subset fields) fun field member => .inr (apart field member)]
  exact outside_nil start bytes

/-- The bytes of a field are not outside of it. -/
theorem outside_of_span {field : SizeField} (member : field ∈ fields)
    (size : bytes.length = Leb128.paddedWidth32) : outside field.offset fields bytes = [] := by
  unfold outside
  rw [List.map_eq_nil_iff, List.filter_eq_nil_iff]
  rintro ⟨byte, position⟩ here
  have place := List.mem_zipIdx here
  simp only [decide_eq_true_eq, not_forall, not_not]
  refine ⟨field, member, Span.mem_def.2 ?_⟩
  simp only [SizeField.span]
  omega

end Bytes

namespace Writer

/-! ## Steps and calls -/

/-- What is done to the bytes of a writer in the end. -/
inductive Step
  | append (bytes : Bytes)
  | openSize
  /-- Of the fields that are open, the one that was opened last is closed. -/
  | closeSize
deriving DecidableEq, Repr

/-- A writer and its open size fields, the one that was opened last before the others. -/
structure Draft where
  writer : Writer
  pending : List SizeField
deriving DecidableEq, Repr

namespace Draft

/-- The draft after a size field was handed out. -/
def opened (draft : Draft) (reserved : SizeField × Writer) : Draft :=
  ⟨reserved.2, reserved.1 :: draft.pending⟩

/-- Closes the size field that was opened last. -/
def closeLast (draft : Draft) : Except Error Draft :=
  match draft.pending with
  | [] => .error .dangling
  | field :: outer => do return ⟨← draft.writer.closeSize field, outer⟩

/-- The open fields lie in what was written. -/
def Roomy (draft : Draft) : Prop :=
  ∀ field ∈ draft.pending, field.offset + Leb128.paddedWidth32 ≤ draft.writer.size

end Draft

namespace Step

def perform : Step → Draft → Except Error Draft
  | append bytes, draft => .ok { draft with writer := draft.writer.append bytes }
  | openSize, draft => .ok (draft.opened draft.writer.openSize)
  | closeSize, draft => draft.closeLast

/-- How many bytes are added. -/
def size : Step → Nat
  | append bytes => bytes.length
  | openSize => Leb128.paddedWidth32
  | closeSize => 0

/-- The bytes that are written as they will stay. -/
def written : Step → Bytes
  | append bytes => bytes
  | openSize | closeSize => []

end Step

/-- Performs steps in a row. -/
def performAll (steps : List Step) (draft : Draft) : Except Error Draft :=
  steps.foldlM (fun draft step => step.perform draft) draft

/-- How many bytes some steps add. -/
def extent : List Step → Nat
  | [] => 0
  | step :: rest => step.size + extent rest

/-- What a writer can be asked for. Numbers, names and types are written as their bytes. -/
inductive Call
  | append (bytes : Bytes)
  | openSize
  | openSection (id : SectionId)
  | openCustomSection (name : String)
  | closeSize
  | addSection (id : SectionId) (contents : Bytes)
  | addVector (id : SectionId) (count : UInt32) (entries : Bytes)
deriving DecidableEq, Repr

namespace Call

def perform : Call → Draft → Except Error Draft
  | append bytes, draft => .ok { draft with writer := draft.writer.append bytes }
  | openSize, draft => .ok (draft.opened draft.writer.openSize)
  | openSection id, draft => .ok (draft.opened (draft.writer.openSection id))
  | openCustomSection name, draft => .ok (draft.opened (draft.writer.openCustomSection name))
  | closeSize, draft => draft.closeLast
  | addSection id contents, draft => do
    return { draft with writer := ← draft.writer.addSection id contents }
  | addVector id count entries, draft => do
    return { draft with writer := ← draft.writer.addVector id count (.ok entries) }

/-- The steps of a section with these contents. -/
def sectionSteps (id : SectionId) (contents : Bytes) : List Step :=
  [.append [id.toByte], .openSize, .append contents, .closeSize]

/-- The steps that the call comes to. -/
def steps : Call → List Step
  | append bytes => [.append bytes]
  | openSize => [.openSize]
  | openSection id => [.append [id.toByte], .openSize]
  | openCustomSection name =>
    [.append [SectionId.custom.toByte], .openSize, .append (Text.encode name)]
  | closeSize => [.closeSize]
  | addSection id contents => sectionSteps id contents
  | addVector id count entries =>
    if count = 0 then [] else sectionSteps id (Leb128.ofUInt32 count ++ entries)

end Call

/-- Makes calls in a row. -/
def run (calls : List Call) (draft : Draft) : Except Error Draft :=
  calls.foldlM (fun draft call => call.perform draft) draft

/-- The steps that some calls come to. -/
def stepsOf (calls : List Call) : List Step := calls.flatMap Call.steps

theorem extent_cons (step : Step) (rest : List Step) :
    extent (step :: rest) = step.size + extent rest := rfl

theorem extent_append (first second : List Step) :
    extent (first ++ second) = extent first + extent second := by
  induction first with
  | nil => exact (Nat.zero_add _).symm
  | cons step rest ih => rw [List.cons_append, extent_cons, ih, extent_cons, Nat.add_assoc]

theorem performAll_cons (step : Step) (rest : List Step) (draft : Draft) :
    performAll (step :: rest) draft = step.perform draft >>= performAll rest := rfl

theorem performAll_append (first second : List Step) (draft : Draft) :
    performAll (first ++ second) draft = performAll first draft >>= performAll second :=
  List.foldlM_append

theorem performAll_singleton (step : Step) (draft : Draft) :
    performAll [step] draft = step.perform draft := by
  rw [performAll_cons]
  cases step.perform draft <;> rfl

/-- A section is made of its steps. -/
theorem performAll_sectionSteps (id : SectionId) (contents : Bytes) (draft : Draft) :
    performAll (Call.sectionSteps id contents) draft = (do
      return { draft with writer := ← draft.writer.addSection id contents }) :=
  performAll_singleton .closeSize _

/-- What a call does is what its steps do. -/
theorem Call.perform_eq (call : Call) (draft : Draft) :
    call.perform draft = performAll call.steps draft := by
  cases call with
  | addSection id contents => exact (performAll_sectionSteps id contents draft).symm
  | addVector id count entries =>
    by_cases none : count = 0
    · simp only [perform, steps, Writer.addVector, if_pos none]
      rfl
    · simp only [perform, steps, Writer.addVector, if_neg none, performAll_sectionSteps]
      rfl
  | closeSize => exact (performAll_singleton .closeSize draft).symm
  | _ => rfl

theorem run_eq (calls : List Call) (draft : Draft) :
    run calls draft = performAll (stepsOf calls) draft := by
  induction calls generalizing draft with
  | nil => rfl
  | cons call rest ih =>
    have split : stepsOf (call :: rest) = call.steps ++ stepsOf rest := List.flatMap_cons
    have first : run (call :: rest) draft = call.perform draft >>= run rest := rfl
    rw [split, performAll_append, first, call.perform_eq, funext ih]

/-! ## Any steps -/

variable {steps first rest : List Step} {step : Step} {draft next : Draft} {writer : Writer}

/-- A field is filled in its place. -/
theorem size_of_closeSize {field : SizeField} {closed : Writer}
    (within : field.offset + Leb128.paddedWidth32 ≤ writer.size)
    (h : writer.closeSize field = .ok closed) : closed.size = writer.size := by
  unfold closeSize at h
  dsimp only at h
  split at h
  · cases h
    simp only [size, List.length_append, List.length_take, List.length_drop,
      Leb128.length_paddedUInt32]
    simp only [size] at within
    omega
  · cases h

/-- A step adds as many bytes as it says, and open fields stay in what was written. -/
theorem Draft.Roomy.perform (roomy : draft.Roomy) (h : step.perform draft = .ok next) :
    next.Roomy ∧ next.writer.size = draft.writer.size + step.size := by
  cases step with
  | append bytes =>
    cases h
    have size := size_append draft.writer bytes
    refine ⟨fun field member => ?_, size⟩
    have := roomy field member
    simp only [size]
    omega
  | openSize =>
    cases h
    have size : (draft.opened draft.writer.openSize).writer.size =
        draft.writer.size + Leb128.paddedWidth32 := by
      simp only [opened, openSize, size_append, Leb128.length_paddedUInt32]
    refine ⟨fun field member => ?_, size⟩
    rw [size]
    rcases List.mem_cons.1 member with rfl | member
    · exact Nat.le_refl _
    · have := roomy field member
      omega
  | closeSize =>
    simp only [Step.perform, closeLast] at h
    split at h
    · cases h
    · next field outer pending =>
      rw [Draft.Roomy, pending] at roomy
      obtain ⟨closed, filled, rfl⟩ := return_eq_ok.1 h
      have size := size_of_closeSize (roomy field List.mem_cons_self) filled
      refine ⟨fun other member => ?_, size⟩
      rw [size]
      exact roomy other (List.mem_cons_of_mem field member)

/-- So it is with steps in a row. -/
theorem Draft.Roomy.performAll (roomy : draft.Roomy) (h : performAll steps draft = .ok next) :
    next.Roomy ∧ next.writer.size = draft.writer.size + extent steps := by
  induction steps generalizing draft with
  | nil =>
    cases h
    exact ⟨roomy, rfl⟩
  | cons step rest ih =>
    rw [performAll_cons] at h
    obtain ⟨middle, one, others⟩ := bind_eq_ok.1 h
    obtain ⟨roomy', size⟩ := roomy.perform one
    obtain ⟨roomy'', size'⟩ := ih roomy' others
    refine ⟨roomy'', ?_⟩
    rw [size', size, extent_cons, Nat.add_assoc]

/-- Where steps in a row succeed, the first of them do. -/
theorem exists_of_performAll_append (h : performAll (first ++ rest) draft = .ok next) :
    ∃ middle, performAll first draft = .ok middle := by
  rw [performAll_append] at h
  obtain ⟨middle, one, -⟩ := bind_eq_ok.1 h
  exact ⟨middle, one⟩

/-! ## Where fields are opened -/

/-- The size fields that steps open, where the first step is performed at a position. -/
def openings : (position : Nat) → List Step → List SizeField
  | _, [] => []
  | position, .openSize :: rest => ⟨position⟩ :: openings (position + Leb128.paddedWidth32) rest
  | position, step :: rest => openings (position + step.size) rest

theorem openings_append (position : Nat) (first second : List Step) :
    openings position (first ++ second) =
      openings position first ++ openings (position + extent first) second := by
  induction first generalizing position with
  | nil => rfl
  | cons step rest ih =>
    rw [extent_cons, ← Nat.add_assoc]
    cases step with
    | openSize => exact congrArg (SizeField.mk position :: ·) (ih _)
    | _ => exact ih _

theorem length_openings (position : Nat) (steps : List Step) :
    (openings position steps).length = steps.count .openSize := by
  induction steps generalizing position with
  | nil => rfl
  | cons step rest ih =>
    cases step with
    | openSize =>
      rw [openings, List.length_cons, ih, List.count_cons_self]
    | _ =>
      rw [openings, ih, List.count_cons_of_ne (by simp)]
      simp

/-- Fields stand between the position where the steps begin and the one that they come to. -/
theorem bounds_of_mem_openings {position : Nat} {field : SizeField}
    (member : field ∈ openings position steps) : position ≤ field.offset ∧
      field.offset + Leb128.paddedWidth32 ≤ position + extent steps := by
  induction steps generalizing position with
  | nil => cases member
  | cons step rest ih =>
    rw [extent_cons]
    cases step with
    | openSize =>
      rcases List.mem_cons.1 member with rfl | later
      · simp only [Step.size]
        omega
      · have := ih later
        simp only [Step.size]
        omega
    | _ =>
      have := ih member
      omega

/-- No two fields have a byte in common. -/
theorem openings_pairwise (position : Nat) (steps : List Step) :
    (openings position steps).Pairwise fun one other =>
      one.offset + Leb128.paddedWidth32 ≤ other.offset := by
  induction steps generalizing position with
  | nil => exact .nil
  | cons step rest ih =>
    cases step with
    | openSize => exact .cons (fun field later => (bounds_of_mem_openings later).1) (ih _)
    | _ => exact ih _

/-! ## Nested steps -/

/-- The steps close every field that they open, and close no other. -/
inductive Nested : List Step → Prop
  | nil : Nested []
  | append (bytes : Bytes) {rest : List Step} : Nested rest → Nested (.append bytes :: rest)
  | sized {inside rest : List Step} : Nested inside → Nested rest →
      Nested (.openSize :: (inside ++ .closeSize :: rest))

/-- Among the steps, these stand between the opening of a field and the step that closes it. -/
def Encloses (steps inside : List Step) : Prop :=
  Nested inside ∧ ∃ before after, steps = before ++ .openSize :: (inside ++ .closeSize :: after)

theorem Encloses.in_append {inside : List Step} (first : List Step)
    (encloses : Encloses steps inside) (last : List Step) : Encloses (first ++ steps ++ last) inside := by
  obtain ⟨nested, before, after, rfl⟩ := encloses
  exact ⟨nested, first ++ before, after ++ last, by simp⟩

/-- What is enclosed adds no more bytes than all steps. -/
theorem Encloses.extent_le {inside : List Step} (encloses : Encloses steps inside) :
    extent inside ≤ extent steps := by
  obtain ⟨-, before, after, rfl⟩ := encloses
  simp only [extent_append, extent_cons]
  omega

/-- Where a field is opened, some steps follow until it is closed, and others follow these. -/
def Closes (rest inside after : List Step) : Prop :=
  Nested inside ∧ rest = inside ++ .closeSize :: after

/-- The bytes are what the steps write when all fields are filled. -/
structure Lays (steps : List Step) (out : Bytes) : Prop where
  length : out.length = extent steps
  /-- Each field that is opened holds the count of the bytes that it encloses. -/
  fields : ∀ before rest, steps = before ++ .openSize :: rest →
    ∃ inside after front back, Closes rest inside after ∧
      out = front ++ Leb128.paddedUInt32 (UInt32.ofNat (extent inside)) ++ back ∧
      front.length = extent before
  others : ∀ position, out.outside position (openings position steps) = steps.flatMap Step.written

theorem lays_nil : Lays [] [] where
  length := rfl
  fields := by
    intro before rest split
    cases before <;> cases split
  others := fun _ => rfl

variable {out more : Bytes} {inside : List Step}

theorem Lays.append (lays : Lays rest out) (bytes : Bytes) :
    Lays (.append bytes :: rest) (bytes ++ out) where
  length := by rw [List.length_append, lays.length, extent_cons]; rfl
  fields := by
    intro before later split
    cases before with
    | nil => cases split
    | cons step before =>
      obtain ⟨rfl, same⟩ := List.cons.inj split
      obtain ⟨inside, after, front, back, closes, rfl, place⟩ := lays.fields before later same
      refine ⟨inside, after, bytes ++ front, back, closes, by simp, ?_⟩
      rw [List.length_append, place, extent_cons]
      rfl
  others := by
    intro position
    have ahead : bytes.outside position (openings (position + bytes.length) rest) = bytes := by
      apply Bytes.outside_of_apart
      intro field member
      exact .inr (bounds_of_mem_openings member).1
    have behind := lays.others (position + bytes.length)
    rw [Bytes.outside_append, List.flatMap_cons]
    exact congrArg₂ (· ++ ·) ahead behind

/-- Where steps close a field and others follow, a field is opened before that or behind it. -/
theorem cases_of_open {before later : List Step}
    (split : inside ++ .closeSize :: rest = before ++ .openSize :: later) :
    (∃ left, inside = before ++ .openSize :: left ∧ later = left ++ .closeSize :: rest) ∨
      ∃ right, before = inside ++ .closeSize :: right ∧ rest = right ++ .openSize :: later := by
  rcases List.append_eq_append_iff.1 split with ⟨right, rfl, behind⟩ | ⟨left, rfl, ahead⟩
  · cases right with
    | nil => cases behind
    | cons step right =>
      obtain ⟨rfl, rfl⟩ := List.cons.inj behind
      exact .inr ⟨right, rfl, rfl⟩
  · cases left with
    | nil => cases ahead
    | cons step left =>
      obtain ⟨rfl, rfl⟩ := List.cons.inj ahead
      exact .inl ⟨left, rfl, rfl⟩

/-- Among more fields only those of the steps matter, if the others are apart. -/
theorem Lays.outside_eq (lays : Lays steps out) {position : Nat} {fields : List SizeField}
    (own : openings position steps ⊆ fields)
    (apart : ∀ field ∈ fields, field ∈ openings position steps ∨
      field.offset + Leb128.paddedWidth32 ≤ position ∨ position + extent steps ≤ field.offset) :
    out.outside position fields = steps.flatMap Step.written := by
  rw [← lays.others position]
  apply Bytes.outside_congr own
  rw [lays.length]
  exact apart

/-- The fields in a field around some steps, and behind it. -/
theorem openings_sized (position : Nat) (inside rest : List Step) :
    openings position (.openSize :: (inside ++ .closeSize :: rest)) =
      ⟨position⟩ :: (openings (position + Leb128.paddedWidth32) inside ++
        openings (position + Leb128.paddedWidth32 + extent inside) rest) := by
  rw [openings, openings_append]
  rfl

/-- In a field around some steps, and behind it, only the own fields of either matter. -/
theorem outside_sized (lays : Lays inside out) (others : Lays rest more) (position : Nat) :
    Bytes.outside position (openings position (.openSize :: (inside ++ .closeSize :: rest)))
        (Leb128.paddedUInt32 (UInt32.ofNat (extent inside)) ++ (out ++ more)) =
      inside.flatMap Step.written ++ rest.flatMap Step.written := by
  rw [openings_sized, Bytes.outside_append, Bytes.outside_append, Leb128.length_paddedUInt32,
    lays.length]
  have own := Bytes.outside_of_span (List.mem_cons_self (a := SizeField.mk position)
      (l := openings (position + Leb128.paddedWidth32) inside ++
        openings (position + Leb128.paddedWidth32 + extent inside) rest))
    (Leb128.length_paddedUInt32 (UInt32.ofNat (extent inside)))
  rw [own, List.nil_append]
  congr 1
  · apply lays.outside_eq
    · exact List.Subset.trans (List.subset_append_left _ _) (List.subset_cons_self _ _)
    · intro field member
      rcases List.mem_cons.1 member with rfl | member
      · exact .inr (.inl (Nat.le_refl _))
      · rcases List.mem_append.1 member with member | member
        · exact .inl member
        · exact .inr (.inr (bounds_of_mem_openings member).1)
  · apply others.outside_eq
    · exact List.Subset.trans (List.subset_append_right _ _) (List.subset_cons_self _ _)
    · intro field member
      rcases List.mem_cons.1 member with rfl | member
      · exact .inr (.inl (Nat.le_add_right _ _))
      · rcases List.mem_append.1 member with member | member
        · exact .inr (.inl (bounds_of_mem_openings member).2)
        · exact .inl member

/-- A field around some steps, with other steps behind it. -/
theorem Lays.sized (nested : Nested inside) (lays : Lays inside out) (others : Lays rest more) :
    Lays (.openSize :: (inside ++ .closeSize :: rest))
      (Leb128.paddedUInt32 (UInt32.ofNat (extent inside)) ++ (out ++ more)) where
  length := by
    simp only [List.length_append, Leb128.length_paddedUInt32, lays.length, others.length,
      extent_cons, extent_append, Step.size]
    omega
  fields := by
    intro before later split
    cases before with
    | nil =>
      obtain ⟨-, rfl⟩ := List.cons.inj split
      exact ⟨inside, rest, [], out ++ more, ⟨nested, rfl⟩, rfl, rfl⟩
    | cons step before =>
      obtain ⟨rfl, same⟩ := List.cons.inj split
      rcases cases_of_open same with ⟨left, split', rfl⟩ | ⟨right, rfl, split'⟩
      · -- The other field is inside of this one.
        obtain ⟨inside', after, front, back, ⟨nested', rfl⟩, rfl, place⟩ :=
          lays.fields before left split'
        refine ⟨inside', after ++ .closeSize :: rest,
          Leb128.paddedUInt32 (UInt32.ofNat (extent inside)) ++ front, back ++ more,
          ⟨nested', by simp⟩, by simp, ?_⟩
        rw [List.length_append, Leb128.length_paddedUInt32, place, extent_cons]
        rfl
      · -- The other field comes behind this one.
        obtain ⟨inside', after, front, back, closes, rfl, place⟩ := others.fields right later split'
        refine ⟨inside', after,
          Leb128.paddedUInt32 (UInt32.ofNat (extent inside)) ++ (out ++ front), back,
          closes, by simp, ?_⟩
        simp only [List.length_append, Leb128.length_paddedUInt32, lays.length, place,
          extent_cons, extent_append, Step.size]
        omega
  others := by
    intro position
    rw [outside_sized lays others]
    simp [Step.written]

/-- Nested steps succeed if no field encloses too much. They leave behind what was there, and then
what they lay out. -/
theorem performAll_nested (nested : Nested steps)
    (small : ∀ inside, Encloses steps inside → extent inside < wordLimit) :
    ∃ out, Lays steps out ∧ ∀ draft : Draft,
      performAll steps draft = .ok { draft with writer := draft.writer.append out } := by
  induction nested with
  | nil =>
    refine ⟨[], lays_nil, fun draft => ?_⟩
    rw [show draft.writer.append [] = draft.writer by simp [Writer.append]]
    rfl
  | @append bytes rest _ ih =>
    obtain ⟨out, lays, writes⟩ := ih fun inside encloses =>
      small inside (by simpa using encloses.in_append [.append bytes] [])
    refine ⟨bytes ++ out, lays.append bytes, fun draft => ?_⟩
    rw [performAll_cons]
    refine bind_eq_ok.2 ⟨_, rfl, ?_⟩
    rw [writes]
    simp [Writer.append]
  | @sized inside rest nested _ ih ih' =>
    obtain ⟨out, lays, writes⟩ := ih fun inside' encloses =>
      small inside' (by simpa using encloses.in_append [.openSize] (.closeSize :: rest))
    obtain ⟨more, lays', writes'⟩ := ih' fun inside' encloses => small inside' (by
      have within := encloses.in_append (.openSize :: (inside ++ [.closeSize])) []
      rw [List.append_nil, List.cons_append, ← List.append_cons] at within
      exact within)
    have fits : extent inside < wordLimit := small inside ⟨nested, [], rest, rfl⟩
    -- What is inside leaves the field open, and it is still where it was handed out.
    refine ⟨_, lays.sized nested lays', fun draft => ?_⟩
    have closed := closeSize_append draft.writer out _ _ rfl (by rw [lays.length]; exact fits)
    rw [performAll_cons]
    refine bind_eq_ok.2 ⟨draft.opened draft.writer.openSize, rfl, ?_⟩
    rw [performAll_append, writes]
    refine bind_eq_ok.2 ⟨_, rfl, ?_⟩
    rw [performAll_cons]
    refine bind_eq_ok.2 ⟨_, return_eq_ok.2 ⟨_, closed, rfl⟩, ?_⟩
    rw [writes', lays.length]
    simp [Writer.append]

/-- What the steps, performed from one writer on, leave behind in another one. -/
structure Filled (start : Writer) (steps : List Step) (last : Writer) (fields : List SizeField) :
    Prop where
  /-- A field that is handed out is closed again, and then holds the count of the bytes between its
  end and the place where that was done. -/
  counts : ∀ before rest, steps = before ++ .openSize :: rest →
    ∃ inside after here there value, Closes rest inside after ∧
      performAll before ⟨start, []⟩ = .ok here ∧
      performAll (before ++ .openSize :: inside) ⟨start, []⟩ = .ok there ∧
      here.writer.openSize.1 ∈ fields ∧
      Leb128.decodeUInt32 (last.bytes.drop here.writer.openSize.1.offset) =
        .ok (value, Leb128.paddedWidth32) ∧
      here.writer.openSize.1.offset + Leb128.paddedWidth32 + value.toNat = there.writer.size
  /-- There are no fields but these, and no two of them have a byte in common. -/
  complete : fields.length = steps.count .openSize
  apart : fields.Pairwise fun one other => one.offset + Leb128.paddedWidth32 ≤ other.offset
  /-- All other bytes are those that were there and then those that were written, in their order. -/
  others : last.bytes.outside 0 fields = start.bytes ++ steps.flatMap Step.written

theorem filled_of_lays (start : Writer) (lays : Lays steps out)
    (small : ∀ inside, Encloses steps inside → extent inside < wordLimit)
    (writes : performAll steps ⟨start, []⟩ = .ok ⟨start.append out, []⟩) :
    Filled start steps (start.append out) (openings start.size steps) where
  counts := by
    rintro before rest rfl
    have empty : (Draft.mk start []).Roomy := by simp [Draft.Roomy]
    obtain ⟨inside, after, front, back, ⟨nested, rfl⟩, rfl, place⟩ := lays.fields before rest rfl
    -- What is performed before the field is closed is the first part of what is performed at all.
    obtain ⟨here, ran⟩ := exists_of_performAll_append writes
    have whole := writes
    rw [← List.cons_append, ← List.append_assoc] at whole
    obtain ⟨there, ran'⟩ := exists_of_performAll_append whole
    have position : here.writer.size = start.size + extent before := (empty.performAll ran).2
    have behind : there.writer.size =
        start.size + (extent before + (Leb128.paddedWidth32 + extent inside)) := by
      rw [(empty.performAll ran').2, extent_append, extent_cons]
      rfl
    have fits : extent inside < wordLimit := small inside ⟨nested, before, after, rfl⟩
    have value : (UInt32.ofNat (extent inside)).toNat = extent inside :=
      UInt32.toNat_ofNat_of_lt fits
    refine ⟨inside, after, here, there, .ofNat (extent inside), ⟨nested, rfl⟩, ran, ran', ?_, ?_,
      ?_⟩
    · rw [openings_append]
      apply List.mem_append_right
      show SizeField.mk here.writer.size ∈ _
      rw [position]
      exact List.mem_cons_self
    · have ahead : (start.append (front ++
          Leb128.paddedUInt32 (UInt32.ofNat (extent inside)) ++ back)).bytes.drop
            here.writer.size =
          Leb128.paddedUInt32 (UInt32.ofNat (extent inside)) ++ back := by
        rw [position, ← place]
        simp [Writer.append, size, List.drop_append]
      show Leb128.decodeUInt32 (List.drop here.writer.size _) = _
      rw [ahead]
      exact Leb128.decodeUInt32_paddedUInt32 _ back
    · show here.writer.size + _ + _ = _
      omega
  complete := length_openings _ _
  apart := openings_pairwise _ _
  others := by
    have before : start.bytes.outside 0 (openings start.size steps) = start.bytes := by
      apply Bytes.outside_of_apart
      intro field member
      have := (bounds_of_mem_openings member).1
      simp only [size] at this
      omega
    show Bytes.outside 0 _ (start.bytes ++ out) = _
    rw [Bytes.outside_append, before, Nat.zero_add]
    exact congrArg (start.bytes ++ ·) (lays.others start.size)

/-- Calls of which the size fields nest, to any depth, succeed if no field encloses as much as its
width cannot hold. In the end every field that was handed out reads as the count of the bytes
between its end and the place where it was closed, and all other bytes are what was there before and
then what the calls wrote, in their order. -/
theorem run_nested (start : Writer) (calls : List Call) (nested : Nested (stepsOf calls))
    (small : ∀ inside, Encloses (stepsOf calls) inside → extent inside < wordLimit) :
    ∃ last fields, run calls ⟨start, []⟩ = .ok ⟨last, []⟩ ∧
      Filled start (stepsOf calls) last fields := by
  obtain ⟨out, lays, writes⟩ := performAll_nested nested small
  have ran : run calls ⟨start, []⟩ = .ok ⟨start.append out, []⟩ := by rw [run_eq, writes]
  exact ⟨start.append out, openings start.size (stepsOf calls), ran,
    filled_of_lays start lays small (writes ⟨start, []⟩)⟩

/-- A custom section with a part that has a size of its own, and a vector section behind it. -/
def namesAndFunctions : List Call :=
  [.openCustomSection "name", .append [1], .openSize, .append [1, 2, 3], .closeSize, .closeSize,
    .addVector .functions 1 [0]]

/-- The outer field counts the inner one, too. -/
theorem run_namesAndFunctions :
    Nested (stepsOf namesAndFunctions) ∧
      (∀ inside, Encloses (stepsOf namesAndFunctions) inside → extent inside < wordLimit) ∧
      ∃ last fields, run namesAndFunctions ⟨.empty, []⟩ = .ok ⟨last, []⟩ ∧
        Filled .empty (stepsOf namesAndFunctions) last fields ∧
        last.bytes = [0, 0x8e, 0x80, 0x80, 0x80, 0, 4, 0x6e, 0x61, 0x6d, 0x65,
          1, 0x83, 0x80, 0x80, 0x80, 0, 1, 2, 3, 3, 0x82, 0x80, 0x80, 0x80, 0, 1, 0] := by
  have nested : Nested (stepsOf namesAndFunctions) :=
    .append [0] (.sized (.append _ (.append [1] (.sized (.append [1, 2, 3] .nil) .nil)))
      (.append [3] (.sized (.append _ .nil) .nil)))
  have small : ∀ inside, Encloses (stepsOf namesAndFunctions) inside →
      extent inside < wordLimit := by
    intro inside encloses
    refine Nat.lt_of_le_of_lt encloses.extent_le ?_
    decide +kernel
  obtain ⟨last, fields, ran, filled⟩ := run_nested .empty namesAndFunctions nested small
  refine ⟨nested, small, last, fields, ran, filled, ?_⟩
  have whole : run namesAndFunctions ⟨.empty, []⟩ =
      .ok ⟨⟨[0, 0x8e, 0x80, 0x80, 0x80, 0, 4, 0x6e, 0x61, 0x6d, 0x65,
        1, 0x83, 0x80, 0x80, 0x80, 0, 1, 2, 3, 3, 0x82, 0x80, 0x80, 0x80, 0, 1, 0]⟩, []⟩ := by
    decide +kernel
  rw [whole] at ran
  cases ran
  rfl

end Writer

end StaticLink
