import Mathlib.Algebra.BigOperators.Group.List.Basic
import Mathlib.Algebra.GroupWithZero.Nat
import StaticLink.Proofs.Steps
import StaticLink.Proofs.SymbolTable.Permanence

/-!
# Registrations that leave no trace

A record never goes back to what it was, so that some registrations leave a table as it is exactly
if each of them does.

* `Symbol.rank`: how far a record has come; `SymbolTable.progress`: how far all of them have.
* `SymbolTable.Silent`: a registration that changes nothing; all others make progress.
* `SymbolTable.acceptAll_eq_self_iff`: when a run of registrations changes nothing.
-/

namespace StaticLink

namespace Symbol

/-- How far a record has come: from a weak reference over a strong one and a weak definition to a
strong definition. -/
def rank (symbol : Symbol) : Nat :=
  (if symbol.isUndefined then 0 else 2) + (if symbol.isWeak then 0 else 1)

variable {existing incoming : Symbol}

theorem rank_lt_strengthened (merged : existing.merge incoming = .ok .strengthen) :
    existing.rank < existing.strengthened.rank := by
  obtain ⟨-, -, undefined, weak, -⟩ := merge_eq_strengthen_iff.1 merged
  have still : existing.strengthened.isUndefined = true := undefined
  simp [rank, undefined, weak, still]

theorem rank_lt_of_replace (merged : existing.merge incoming = .ok .replace) :
    existing.rank < incoming.rank := by
  obtain ⟨-, definition, weaker⟩ := merge_eq_replace_iff.1 merged
  rcases weaker with undefined | ⟨defined, strong, -, weak⟩
  · have least : 2 ≤ incoming.rank := by simp [rank, definition]
    have most : existing.rank ≤ 1 := by
      simp only [rank, undefined, if_true]
      split <;> omega
    omega
  · simp [rank, definition, defined, strong, weak]

end Symbol

namespace SymbolTable

variable {table next : SymbolTable} {call : Registration} {id : SymbolId}
  {calls : List Registration}

/-- How far all records together have come. A new record counts too. -/
def progress (table : SymbolTable) : Nat :=
  (table.records.toList.map fun record => record.rank + 1).sum

/-- The registration changes nothing: there is a record for the name, and it stays. -/
def Silent (table : SymbolTable) : Registration → Prop
  | .own _ => False
  | .shared symbol => ∃ id existing, table.lookup symbol.name = some id ∧
      table.records[id]? = some existing ∧ existing.merge symbol = .ok .keep

/-! ## One registration -/

theorem progress_lt_push {symbol : Symbol} (records : next.records = table.records.push symbol) :
    table.progress < next.progress := by
  rw [progress, progress, records, Array.toList_push, List.map_append, List.sum_append]
  simp

theorem progress_lt_set {existing symbol : Symbol} (found : table.records[id]? = some existing)
    (records : next.records = table.records.setIfInBounds id symbol)
    (further : existing.rank < symbol.rank) : table.progress < next.progress := by
  obtain ⟨small, rfl⟩ := Array.getElem?_eq_some_iff.1 found
  let ranks := table.records.toList.map fun record => record.rank + 1
  have within : id < ranks.length := by simpa [ranks] using small
  have old : ranks = ranks.set id (table.records[id].rank + 1) := by
    have here : ranks[id] = table.records[id].rank + 1 := by simp [ranks]
    rw [← here, List.set_getElem_self]
  have new : (next.records.toList.map fun record => record.rank + 1) =
      ranks.set id (symbol.rank + 1) := by
    rw [records, Array.toList_setIfInBounds, List.map_set]
  -- The two lists differ at one place.
  have before : ranks.sum = _ := (congrArg List.sum old).trans (List.sum_set ranks id _)
  have after := List.sum_set ranks id (symbol.rank + 1)
  rw [if_pos within] at before after
  change ranks.sum < (next.records.toList.map fun record => record.rank + 1).sum
  rw [new, after, before]
  omega

/-- A registration that is accepted changes nothing or makes progress. -/
theorem silent_or_progress_lt (h : table.register call = .ok (id, next)) :
    table.Silent call ∧ next = table ∨ ¬ table.Silent call ∧ table.progress < next.progress := by
  cases call with
  | own symbol =>
    cases h
    exact .inr ⟨id, progress_lt_push (records_addLocal table symbol)⟩
  | shared symbol =>
    -- What stands for the name now decides what a merge comes to.
    have not_silent {existing : Symbol} {merge : Merge} (known : table.lookup symbol.name = some id)
        (found : table.records[id]? = some existing) (merged : existing.merge symbol = .ok merge)
        (other : merge ≠ .keep) : ¬ table.Silent (.shared symbol) := by
      rintro ⟨id', existing', known', found', kept⟩
      obtain rfl := Option.some.inj (known.symm.trans known')
      obtain rfl := Option.some.inj (found.symm.trans found')
      exact other (Except.ok.inj (merged.symm.trans kept))
    cases adds_of_add_eq_ok h with
    | introduced new =>
      refine .inr ⟨?_, progress_lt_push (records_introduce table _)⟩
      rintro ⟨id, existing, known, -⟩
      rw [new] at known
      cases known
    | kept known found merged => exact .inl ⟨⟨_, _, known, found, merged⟩, rfl⟩
    | strengthened known found merged =>
      exact .inr ⟨not_silent known found merged (by simp),
        progress_lt_set found rfl (Symbol.rank_lt_strengthened merged)⟩
    | replaced known found merged =>
      exact .inr ⟨not_silent known found merged (by simp),
        progress_lt_set found (records_resolve table _ _) (Symbol.rank_lt_of_replace merged)⟩

/-! ## Runs of registrations -/

/-- The table after registrations that must all be accepted. -/
def acceptAll (table : SymbolTable) (calls : List Registration) : Except Error SymbolTable :=
  calls.foldlM (fun table call => (table.register call).map fun (_, next) => next) table

theorem acceptAll_cons_eq_ok : table.acceptAll (call :: calls) = .ok next ↔
    ∃ id middle, table.register call = .ok (id, middle) ∧ middle.acceptAll calls = .ok next := by
  rw [acceptAll, List.foldlM_cons, bind_eq_ok]
  constructor
  · rintro ⟨middle, one, others⟩
    rcases first : table.register call with error | ⟨id, found⟩
    · rw [first] at one
      cases one
    · rw [first] at one
      obtain rfl := Except.ok.inj one
      exact ⟨id, found, rfl, others⟩
  · rintro ⟨id, middle, one, others⟩
    exact ⟨middle, by rw [one]; rfl, others⟩

theorem acceptAll_append {more : List Registration} {last : SymbolTable}
    (first : table.acceptAll calls = .ok next) (second : next.acceptAll more = .ok last) :
    table.acceptAll (calls ++ more) = .ok last := by
  rw [acceptAll, List.foldlM_append]
  exact bind_eq_ok.2 ⟨next, first, second⟩

theorem progress_le_of_acceptAll (h : table.acceptAll calls = .ok next) :
    table.progress ≤ next.progress := by
  induction calls generalizing table with
  | nil =>
    cases h
    exact Nat.le_refl _
  | cons call rest ih =>
    obtain ⟨id, middle, one, others⟩ := acceptAll_cons_eq_ok.1 h
    have later := ih others
    rcases silent_or_progress_lt one with ⟨-, rfl⟩ | ⟨-, further⟩
    · exact later
    · omega

/-- Registrations that are all accepted leave the table as it was exactly if each of them is
silent. -/
theorem acceptAll_eq_self_iff (h : table.acceptAll calls = .ok next) :
    next = table ↔ ∀ call ∈ calls, table.Silent call := by
  induction calls with
  | nil =>
    cases h
    simp
  | cons call rest ih =>
    obtain ⟨id, middle, one, others⟩ := acceptAll_cons_eq_ok.1 h
    rw [List.forall_mem_cons]
    rcases silent_or_progress_lt one with ⟨silent, rfl⟩ | ⟨loud, further⟩
    · rw [ih others, and_iff_right silent]
    · have later := progress_le_of_acceptAll others
      constructor
      · rintro rfl
        omega
      · rintro ⟨silent, -⟩
        exact absurd silent loud

end SymbolTable

end StaticLink
