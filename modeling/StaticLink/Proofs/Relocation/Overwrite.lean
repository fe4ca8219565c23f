import StaticLink.Bytes

/-!
# Bytes that are overwritten in place

* `Bytes.window`: some of the bytes, by where they start and how many they are.
* `Bytes.overwrite`: other bytes in place of as many of the old ones. What is written is then found
  in its window, and no window apart from it changes.
-/

namespace StaticLink.Bytes

variable {bytes other piece : Bytes} {start width i : Nat}

/-- The `width` bytes from `start` on. -/
def window (bytes : Bytes) (start width : Nat) : Bytes := (bytes.drop start).take width

theorem getElem?_window (bytes : Bytes) (start width i : Nat) :
    (bytes.window start width)[i]? = if i < width then bytes[start + i]? else none := by
  rw [window, List.getElem?_take, List.getElem?_drop]

/-- Windows are equal if the bytes at their positions are. -/
theorem window_congr (same : ∀ i, start ≤ i → i < start + width → bytes[i]? = other[i]?) :
    bytes.window start width = other.window start width := by
  apply List.ext_getElem?
  intro i
  rw [getElem?_window, getElem?_window]
  by_cases within : i < width
  · rw [if_pos within, if_pos within]
    exact same (start + i) (by omega) (by omega)
  · rw [if_neg within, if_neg within]

/-- The bytes at the positions of equal windows are equal. -/
theorem getElem?_of_window_eq (same : bytes.window start width = other.window start width)
    (first : start ≤ i) (last : i < start + width) : bytes[i]? = other[i]? := by
  have here := congrArg (fun piece : Bytes => piece[i - start]?) same
  have split : start + (i - start) = i := by omega
  simp only [getElem?_window, if_pos (show i - start < width by omega), split] at here
  exact here

/-- The bytes with `piece` in place of as many of them from `start` on. -/
def overwrite (bytes : Bytes) (start : Nat) (piece : Bytes) : Bytes :=
  bytes.take start ++ piece ++ bytes.drop (start + piece.length)

theorem length_overwrite (inside : start + piece.length ≤ bytes.length) :
    (bytes.overwrite start piece).length = bytes.length := by
  rw [overwrite, List.length_append, List.length_append, List.length_take, List.length_drop]
  omega

/-- A byte that is not overwritten stays. -/
theorem getElem?_overwrite_of_apart (inside : start + piece.length ≤ bytes.length)
    (apart : ¬ (start ≤ i ∧ i < start + piece.length)) :
    (bytes.overwrite start piece)[i]? = bytes[i]? := by
  have first : (bytes.take start).length = start := by
    rw [List.length_take]
    omega
  rw [overwrite, List.append_assoc]
  by_cases before : i < start
  · rw [List.getElem?_append_left (by omega), List.getElem?_take, if_pos before]
  · rw [List.getElem?_append_right (by omega), first, List.getElem?_append_right (by omega),
      List.getElem?_drop]
    congr 1
    omega

/-- What was written is there. -/
theorem window_overwrite (inside : start + piece.length ≤ bytes.length) :
    (bytes.overwrite start piece).window start piece.length = piece := by
  have first : (bytes.take start).length = start := by
    rw [List.length_take]
    omega
  rw [window, overwrite, List.append_assoc, List.drop_left' first, List.take_left' rfl]

/-- Where bytes differ only in what is overwritten, they become the same. -/
theorem overwrite_congr (inside : start + piece.length ≤ bytes.length)
    (same : other.length = bytes.length)
    (outside : ∀ i, ¬ (start ≤ i ∧ i < start + piece.length) → other[i]? = bytes[i]?) :
    other.overwrite start piece = bytes.overwrite start piece := by
  have inside' : start + piece.length ≤ other.length := by omega
  apply List.ext_getElem?
  intro i
  by_cases within : start ≤ i ∧ i < start + piece.length
  · have here := window_overwrite inside
    have there := window_overwrite inside'
    exact getElem?_of_window_eq (there.trans here.symm) within.1 within.2
  · rw [getElem?_overwrite_of_apart inside within, getElem?_overwrite_of_apart inside' within]
    exact outside i within

end StaticLink.Bytes
