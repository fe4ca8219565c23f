/-!
# Lists of entries with keys

Where several entries have the same key, the first one counts.

* `firstOfKeys`: the entries that count, in their order. Their keys differ, and a key has the entry
  that it has in the whole list.
* `positionOfKey?`: the position of a key.
-/

namespace StaticLink

variable {κ α : Type} [DecidableEq κ]

/-- The entries without those whose key an earlier entry has. -/
def firstOfKeys : (entries : List (κ × α)) → List (κ × α)
  | [] => []
  | entry :: rest => entry :: (firstOfKeys rest).filter fun later => decide (later.1 ≠ entry.1)

/-- The position of the first entry with this key. -/
def positionOfKey? (entries : List (κ × α)) (key : κ) : Option Nat :=
  entries.findIdx? fun entry => decide (entry.1 = key)

theorem firstOfKeys_sublist (entries : List (κ × α)) : (firstOfKeys entries).Sublist entries := by
  induction entries with
  | nil => exact .slnil
  | cons entry rest ih => exact (List.filter_sublist.trans ih).cons_cons entry

theorem keys_nodup_firstOfKeys (entries : List (κ × α)) :
    ((firstOfKeys entries).map (·.1)).Nodup := by
  induction entries with
  | nil => exact .nil
  | cons entry rest ih =>
    refine List.nodup_cons.2 ⟨?_, ih.sublist (List.filter_sublist.map _)⟩
    simp only [List.mem_map, List.mem_filter, decide_eq_true_eq, not_exists, not_and]
    exact fun later kept => kept.2

theorem mem_keys_firstOfKeys {entries : List (κ × α)} {key : κ} :
    key ∈ (firstOfKeys entries).map (·.1) ↔ key ∈ entries.map (·.1) := by
  induction entries with
  | nil => rfl
  | cons entry rest ih =>
    by_cases same : key = entry.1
    · simp [firstOfKeys, same]
    · have later : key ∈ ((firstOfKeys rest).filter fun later =>
          decide (later.1 ≠ entry.1)).map (·.1) ↔ key ∈ (firstOfKeys rest).map (·.1) := by
        simp only [List.mem_map, List.mem_filter, decide_eq_true_eq]
        constructor
        · rintro ⟨found, ⟨member, _⟩, rfl⟩
          exact ⟨found, member, rfl⟩
        · rintro ⟨found, member, rfl⟩
          exact ⟨found, ⟨member, same⟩, rfl⟩
      rw [firstOfKeys, List.map_cons, List.map_cons, List.mem_cons, List.mem_cons, later, ih]

/-- A key has the entry that it has in the whole list. -/
theorem find?_firstOfKeys (entries : List (κ × α)) (key : κ) :
    ((firstOfKeys entries).find? fun entry => decide (entry.1 = key)) =
      entries.find? fun entry => decide (entry.1 = key) := by
  induction entries with
  | nil => rfl
  | cons entry rest ih =>
    by_cases same : entry.1 = key
    · simp [firstOfKeys, same]
    · rw [firstOfKeys, List.find?_cons_of_neg (by simpa using same),
        List.find?_cons_of_neg (by simpa using same), ← ih, List.find?_filter]
      congr 1
      funext later
      by_cases found : later.1 = key
      · simp [found, Ne.symm same]
      · simp [found]

end StaticLink
