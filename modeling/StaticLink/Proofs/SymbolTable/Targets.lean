import StaticLink.Proofs.SymbolTable.Permanence

/-!
# Where the targets of records come from

* `SymbolTable.target_of_run`: every record has the target of a symbol that was registered.
* `SymbolTable.ReachedBy`: a table comes of another one by registering symbols with such targets.
* `SymbolTable.Registered`: an id has a record of a given kind, and keeps one.
-/

namespace StaticLink.SymbolTable

/-- The symbol that a call registers. -/
def Registration.symbol : Registration → Symbol
  | .shared symbol | .own symbol => symbol

variable {table next last : SymbolTable} {symbol record : Symbol} {id place : SymbolId}
  {P Q : Target → Prop}

/-! ## One registration -/

theorem getElem?_push_cases {records : Array Symbol}
    (found : (records.push symbol)[place]? = some record) :
    records[place]? = some record ∨ record = symbol := by
  rw [Array.getElem?_push] at found
  split at found
  · exact .inr (Option.some.inj found).symm
  · exact .inl found

theorem getElem?_setIfInBounds_cases {records : Array Symbol}
    (found : (records.setIfInBounds id symbol)[place]? = some record) :
    records[place]? = some record ∨ place = id ∧ record = symbol := by
  rw [Array.getElem?_setIfInBounds] at found
  split at found
  · next same =>
    split at found
    · exact .inr ⟨same.symm, (Option.some.inj found).symm⟩
    · cases found
  · exact .inl found

/-- A record has an old target or that of the symbol which is registered. -/
theorem target_of_after (call : Registration)
    (found : (table.after call).records[place]? = some record) :
    (∃ old, table.records[place]? = some old ∧ record.target = old.target) ∨
      record.target = call.symbol.target := by
  rcases after_cases table call with same | ⟨symbol, id, next, rfl, adds, same⟩ |
    ⟨symbol, rfl, same⟩
  · rw [same] at found
    exact .inl ⟨record, found, rfl⟩
  · rw [same] at found
    cases adds with
    | introduced =>
      rw [records_introduce] at found
      rcases getElem?_push_cases found with old | rfl
      · exact .inl ⟨record, old, rfl⟩
      · exact .inr rfl
    | kept => exact .inl ⟨record, found, rfl⟩
    | @strengthened id existing known stands _ =>
      rcases getElem?_setIfInBounds_cases found with old | ⟨rfl, rfl⟩
      · exact .inl ⟨record, old, rfl⟩
      · exact .inl ⟨existing, stands, rfl⟩
    | replaced known stands merged =>
      rw [records_resolve] at found
      rcases getElem?_setIfInBounds_cases found with old | ⟨-, rfl⟩
      · exact .inl ⟨record, old, rfl⟩
      · exact .inr rfl
  · rw [same, records_addLocal] at found
    rcases getElem?_push_cases found with old | rfl
    · exact .inl ⟨record, old, rfl⟩
    · exact .inr rfl

/-! ## Runs of registrations -/

/-- Every record has an old target or that of a symbol which is registered. -/
theorem target_of_run (calls : List Registration)
    (found : (table.run calls).records[place]? = some record) :
    (∃ old, table.records[place]? = some old ∧ record.target = old.target) ∨
      ∃ call ∈ calls, record.target = call.symbol.target := by
  induction calls generalizing table with
  | nil => exact .inl ⟨record, found, rfl⟩
  | cons call rest ih =>
    rcases ih found with ⟨middle, stands, same⟩ | ⟨later, member, same⟩
    · rcases target_of_after call stands with ⟨old, first, same'⟩ | same'
      · exact .inl ⟨old, first, same.trans same'⟩
      · exact .inr ⟨call, List.mem_cons_self, same.trans same'⟩
    · exact .inr ⟨later, List.mem_cons_of_mem _ member, same⟩

/-- The table `next` comes of `table` by registering symbols whose targets satisfy `P`. -/
def ReachedBy (P : Target → Prop) (table next : SymbolTable) : Prop :=
  ∃ calls : List Registration, next = table.run calls ∧ ∀ call ∈ calls, P call.symbol.target

namespace ReachedBy

theorem refl (P : Target → Prop) (table : SymbolTable) : ReachedBy P table table :=
  ⟨[], rfl, by simp⟩

theorem trans (before : ReachedBy P table next) (after : ReachedBy P next last) :
    ReachedBy P table last := by
  obtain ⟨earlier, rfl, one⟩ := before
  obtain ⟨later, rfl, two⟩ := after
  refine ⟨earlier ++ later, (run_append table earlier later).symm, ?_⟩
  intro call member
  rcases List.mem_append.1 member with member | member
  · exact one call member
  · exact two call member

theorem mono (weaker : ∀ target, P target → Q target) (reached : ReachedBy P table next) :
    ReachedBy Q table next := by
  obtain ⟨calls, same, all⟩ := reached
  exact ⟨calls, same, fun call member => weaker _ (all call member)⟩

/-- An accepted registration is a step. -/
theorem of_register {call : Registration} (h : table.register call = .ok (id, next))
    (target : P call.symbol.target) : ReachedBy P table next := by
  refine ⟨[call], ?_, by simpa using target⟩
  simp only [run, List.foldl_cons, List.foldl_nil, after, h]

theorem later (reached : ReachedBy P table next) (wf : table.WellFormed) :
    next.WellFormed ∧ table.Extends next := by
  obtain ⟨calls, rfl, -⟩ := reached
  exact run_preserves wf calls

/-- What holds of the targets of a table and of what is registered holds of the targets after
that. -/
theorem targets (reached : ReachedBy P table next)
    (before : ∀ (id : SymbolId) (record : Symbol), table.records[id]? = some record →
      P record.target)
    (id : SymbolId) (record : Symbol) (found : next.records[id]? = some record) :
    P record.target := by
  obtain ⟨calls, rfl, all⟩ := reached
  rcases target_of_run calls found with ⟨old, stands, same⟩ | ⟨call, member, same⟩
  · rw [same]
    exact before id old stands
  · rw [same]
    exact all call member

end ReachedBy

/-! ## The kind of a record -/

/-- There is a record at `id`, of this kind. -/
def Registered (table : SymbolTable) (id : SymbolId) (kind : Target.Kind) : Prop :=
  ∃ record, table.records[id]? = some record ∧ record.target.kind = kind

theorem Registered.later {kind : Target.Kind} (registered : table.Registered id kind)
    (later : table.Extends next) : next.Registered id kind := by
  obtain ⟨record, found, same⟩ := registered
  obtain ⟨now, stands, becomes⟩ := later.record id record found
  exact ⟨now, stands, becomes.kind.trans same⟩

/-- A symbol that is accepted has a record of its kind. -/
theorem registered_of_register (wf : table.WellFormed) {call : Registration}
    (h : table.register call = .ok (id, next)) :
    next.Registered id call.symbol.target.kind := by
  cases call with
  | own symbol =>
    cases h
    exact ⟨symbol, by simp, rfl⟩
  | shared symbol =>
    have adds := adds_of_add_eq_ok h
    have later := Extends.of_adds wf adds
    -- The record that stood for the name is of the same kind, and has kept it.
    have standing {existing : Symbol} {merge : Merge} (found : table.records[id]? = some existing)
        (merged : existing.merge symbol = .ok merge) :
        next.Registered id symbol.target.kind :=
      Registered.later ⟨existing, found, Symbol.kind_eq_of_merge_eq_ok merged⟩ later
    cases adds with
    | introduced => exact ⟨symbol, by simp, rfl⟩
    | kept _ found merged => exact standing found merged
    | strengthened _ found merged => exact standing found merged
    | replaced _ found merged => exact standing found merged

end StaticLink.SymbolTable
