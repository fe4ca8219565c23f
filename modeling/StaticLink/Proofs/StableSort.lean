import Mathlib.Data.List.Forall2

/-!
# Sorting that keeps the order of equals

Sorting by merging puts items that compare equal in the order in which they were.

* `pairwise_zipIdx`: the positions in a list ascend.
* `pairwise_mergeSort_of_pairwise`: sorting orders items by their comparison first and among equals
  by how they stood before.
* `find?_mergeSort`: the first of some items that compare equal is the same as before.
* `forall₂_mergeSort`: two lists side by side stay so when both are sorted in the same way.
-/

namespace StaticLink

variable {α β : Type} {le : α → α → Bool} {items : List α}

theorem pairwise_zipIdx (list : List α) :
    list.zipIdx.Pairwise fun first second => first.2 < second.2 := by
  rw [← List.pairwise_map (f := Prod.snd) (R := (· < ·)), List.zipIdx_map_snd]
  exact List.pairwise_lt_range'

/-- Items that are in some order stay in it where they compare equal. -/
theorem pairwise_mergeSort_of_pairwise {R : α → α → Prop}
    (trans : ∀ first second third, le first second = true → le second third = true →
      le first third = true)
    (total : ∀ first second, (le first second || le second first) = true)
    (ordered : items.Pairwise R) :
    (items.mergeSort le).Pairwise fun first second =>
      le first second = true ∧ (le second first = true → R first second) := by
  -- Items are compared with their positions, which are all different.
  have sorted := List.pairwise_mergeSort (List.zipIdxLE_trans trans) (List.zipIdxLE_total total)
    items.zipIdx
  have same : (items.zipIdx.mergeSort (List.zipIdxLE le)).Perm items.zipIdx :=
    List.mergeSort_perm _ _
  have distinct : (items.zipIdx.mergeSort (List.zipIdxLE le)).Pairwise
      fun first second => first.2 ≠ second.2 := by
    have apart : items.zipIdx.Pairwise fun first second => first.2 ≠ second.2 :=
      (pairwise_zipIdx items).imp Nat.ne_of_lt
    exact same.symm.pairwise apart fun different => Ne.symm different
  rw [← List.mergeSort_zipIdx, List.pairwise_map]
  refine (sorted.and distinct).imp_of_mem ?_
  rintro ⟨first, i⟩ ⟨second, j⟩ here there ⟨less, different⟩
  have before : items[i]? = some first := List.mk_mem_zipIdx_iff_getElem?.1 (same.mem_iff.1 here)
  have after : items[j]? = some second := List.mk_mem_zipIdx_iff_getElem?.1 (same.mem_iff.1 there)
  simp only [List.zipIdxLE] at less
  split at less
  · next one =>
    refine ⟨one, fun other => ?_⟩
    rw [if_pos other, decide_eq_true_eq] at less
    have earlier : i < j := by
      have : i ≠ j := different
      omega
    obtain ⟨small, rfl⟩ := List.getElem?_eq_some_iff.1 before
    obtain ⟨small', rfl⟩ := List.getElem?_eq_some_iff.1 after
    exact List.pairwise_iff_getElem.1 ordered i j small small' earlier
  · cases less

/-- Of items that compare equal, the one that was first stays first. -/
theorem find?_mergeSort
    (trans : ∀ first second third, le first second = true → le second third = true →
      le first third = true)
    (total : ∀ first second, (le first second || le second first) = true) {chosen : α → Bool}
    (alike : ∀ first second, chosen first = true → chosen second = true → le first second = true) :
    (items.mergeSort le).find? chosen = items.find? chosen := by
  have sorted : (items.filter chosen).Pairwise fun first second => le first second = true :=
    List.pairwise_of_forall_mem_list fun first one second two =>
      alike first second (List.mem_filter.1 one).2 (List.mem_filter.1 two).2
  -- What is in order already is kept in this order.
  have kept := (List.sublist_mergeSort trans total sorted List.filter_sublist).filter chosen
  have length := ((List.mergeSort_perm items le).filter chosen).length_eq
  simp only [List.filter_filter, Bool.and_self] at kept
  rw [← List.head?_filter, ← List.head?_filter, kept.eq_of_length length.symm]

/-- Lists that stand side by side do so after both are sorted by the same comparison. -/
theorem forall₂_mergeSort {R : α → β → Prop} {le' : β → β → Bool} {results : List β}
    (all : List.Forall₂ R items results)
    (same : ∀ item other result result', R item result → R other result' →
      le item other = le' result result') :
    List.Forall₂ R (items.mergeSort le) (results.mergeSort le') := by
  -- Both are the two halves of the sorted list of pairs.
  let byItem := fun one other : α × β => le one.1 other.1
  let sorted := (items.zip results).mergeSort byItem
  have related (pair : α × β) (member : pair ∈ items.zip results) : R pair.1 pair.2 :=
    List.forall₂_zip all member
  have left : sorted.map Prod.fst = items.mergeSort le := by
    have halves : (items.zip results).map Prod.fst = items :=
      List.map_fst_zip (Nat.le_of_eq all.length_eq)
    rw [← halves]
    exact List.map_mergeSort fun _ _ _ _ => rfl
  have right : sorted.map Prod.snd = results.mergeSort le' := by
    have halves : (items.zip results).map Prod.snd = results :=
      List.map_snd_zip (Nat.le_of_eq all.length_eq.symm)
    rw [← halves]
    apply List.map_mergeSort
    intro one here other there
    exact same _ _ _ _ (related one here) (related other there)
  rw [← left, ← right, List.forall₂_map_left_iff, List.forall₂_map_right_iff, List.forall₂_same]
  intro pair member
  exact related pair (List.mem_mergeSort.1 member)

end StaticLink
