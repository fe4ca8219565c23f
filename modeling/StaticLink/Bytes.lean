import StaticLink.PowerOfTwo

/-!
# Bytes

* `Bytes`: the contents of a file, or of a part of one.
* `Span`: a half-open range of positions in a file, and `Bytes.slice?`, the bytes it covers.
* `littleEndian`, `ofLittleEndian`: words of a fixed width, lowest byte first. Writing a value and
  reading it back gives the value modulo `powerOfTwo (8 * width)`.
-/

namespace StaticLink

/-- The contents of a file, or of a part of one. -/
abbrev Bytes := List UInt8

/-- The positions from `start` on, up to but not including `stop`. -/
structure Span where
  start : Nat
  stop : Nat
deriving DecidableEq, Repr, Inhabited

namespace Span

/-- Number of positions in the span. -/
def size (s : Span) : Nat := s.stop - s.start

instance : Membership Nat Span := ⟨fun s position => s.start ≤ position ∧ position < s.stop⟩

theorem mem_def {s : Span} {position : Nat} :
    position ∈ s ↔ s.start ≤ position ∧ position < s.stop := Iff.rfl

instance (position : Nat) (s : Span) : Decidable (position ∈ s) :=
  decidable_of_iff _ mem_def.symm

end Span

namespace Bytes

/-- Whether `bytes` holds `count` bytes or more; looks at no more than `count` of them. -/
def hasAtLeast : (bytes : Bytes) → (count : Nat) → Bool
  | _, 0 => true
  | [], _ + 1 => false
  | _ :: rest, count + 1 => hasAtLeast rest count

theorem hasAtLeast_iff {bytes : Bytes} {count : Nat} :
    bytes.hasAtLeast count = true ↔ count ≤ bytes.length := by
  induction count generalizing bytes with
  | zero => simp [hasAtLeast]
  | succ count ih =>
    cases bytes with
    | nil => simp [hasAtLeast]
    | cons b rest => simpa [hasAtLeast] using ih

/-- The first `count` bytes and the rest, if there are that many. -/
def splitExactly? (bytes : Bytes) (count : Nat) : Option (Bytes × Bytes) :=
  if bytes.hasAtLeast count then some (bytes.take count, bytes.drop count) else none

theorem append_of_splitExactly? {bytes first rest : Bytes} {count : Nat}
    (h : bytes.splitExactly? count = some (first, rest)) :
    bytes = first ++ rest ∧ first.length = count := by
  unfold splitExactly? at h
  split at h
  · next enough =>
    have := hasAtLeast_iff.1 enough
    obtain ⟨rfl, rfl⟩ := by simpa using h
    exact ⟨(List.take_append_drop count bytes).symm, by simp; omega⟩
  · simp at h

theorem splitExactly?_append (first rest : Bytes) :
    splitExactly? (first ++ rest) first.length = some (first, rest) := by
  have enough : hasAtLeast (first ++ rest) first.length = true := by simp [hasAtLeast_iff]
  simp [splitExactly?, enough]

/-- The bytes at the positions of `span`, if all of them exist. -/
def slice? (bytes : Bytes) (span : Span) : Option Bytes :=
  if span.start ≤ span.stop then
    (splitExactly? (bytes.drop span.start) span.size).map Prod.fst
  else none

theorem length_of_slice? {bytes piece : Bytes} {span : Span} (h : bytes.slice? span = some piece) :
    piece.length = span.size := by
  unfold slice? at h
  split at h
  · obtain ⟨⟨first, rest⟩, split, rfl⟩ := Option.map_eq_some_iff.1 h
    exact (append_of_splitExactly? split).2
  · simp at h

/-- The bytes that stand at a position. -/
theorem slice?_of_drop {bytes piece rest : Bytes} {start : Nat}
    (ahead : bytes.drop start = piece ++ rest) :
    bytes.slice? ⟨start, start + piece.length⟩ = some piece := by
  have size : (Span.mk start (start + piece.length)).size = piece.length :=
    Nat.add_sub_cancel_left ..
  unfold slice?
  rw [if_pos (Nat.le_add_right _ _), size, ahead, splitExactly?_append, Option.map_some]

end Bytes

/-- The `width` low bytes of `value`, lowest first. -/
def littleEndian : (width value : Nat) → Bytes
  | 0, _ => []
  | width + 1, value => UInt8.ofNat value :: littleEndian width (value / 256)

/-- The number whose bytes, lowest first, are `bytes`. -/
def ofLittleEndian : (bytes : Bytes) → Nat
  | [] => 0
  | b :: rest => b.toNat + 256 * ofLittleEndian rest

@[simp] theorem length_littleEndian (width value : Nat) :
    (littleEndian width value).length = width := by
  induction width generalizing value with
  | zero => rfl
  | succ width ih => simp [littleEndian, ih]

theorem ofLittleEndian_littleEndian (width value : Nat) :
    ofLittleEndian (littleEndian width value) = value % powerOfTwo (8 * width) := by
  induction width generalizing value with
  | zero => simp [littleEndian, ofLittleEndian, powerOfTwo_zero, Nat.mod_one]
  | succ width ih =>
    have low : (UInt8.ofNat value).toNat = value % 256 := UInt8.toNat_ofNat'
    have wider : powerOfTwo (8 * (width + 1)) = 256 * powerOfTwo (8 * width) := by
      rw [Nat.mul_succ, Nat.add_comm, powerOfTwo_add]
      rfl
    simp only [littleEndian, ofLittleEndian, ih, low]
    rw [wider, Nat.mod_mul]

theorem ofLittleEndian_lt (bytes : Bytes) :
    ofLittleEndian bytes < powerOfTwo (8 * bytes.length) := by
  induction bytes with
  | nil => exact Nat.one_pos
  | cons b rest ih =>
    have small := b.toNat_lt
    have wider : powerOfTwo (8 * (rest.length + 1)) = 256 * powerOfTwo (8 * rest.length) := by
      rw [Nat.mul_succ, Nat.add_comm, powerOfTwo_add]
      rfl
    rw [ofLittleEndian, List.length_cons, wider]
    omega

end StaticLink
