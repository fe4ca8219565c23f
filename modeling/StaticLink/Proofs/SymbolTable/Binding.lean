import StaticLink.Proofs.SymbolTable.Targets

/-!
# What a registered symbol is bound to

A symbol that is registered gets an id. From then on this is the id that its name leads to, or, for
a symbol that is private to its input, one that no name leads to.

* `SymbolTable.lookup_of_adds`: a name leads to the id that a symbol of this name got.
* `SymbolTable.Private`: no name leads to an id. Its record never changes (`Private.run`).
* `SymbolTable.Binds`: the record and the binding of an id that was given out;
  `SymbolTable.binds_of_register` and `SymbolTable.Binds.later`: it is there from then on.
-/

namespace StaticLink.SymbolTable

variable {table next : SymbolTable} {symbol record : Symbol} {id : SymbolId}
  {P : Target → Prop}

/-! ## Names -/

/-- A symbol that is accepted has the id that its name leads to. -/
theorem lookup_of_adds (adds : Adds table symbol id next) :
    next.lookup symbol.name = some id := by
  cases adds with
  | introduced new => rw [lookup_introduce, new, if_pos rfl, Option.none_or]
  | kept known => exact known
  | strengthened known => exact known
  | replaced known => rw [lookup_resolve, known]

/-! ## Records that no name leads to -/

/-- No name leads to the symbol. -/
def Private (table : SymbolTable) (id : SymbolId) : Prop := ∀ name, table.lookup name ≠ some id

theorem Private.later (own : table.Private id) (small : id < table.records.size)
    (later : table.Extends next) : next.Private id :=
  fun name known => own name (later.unreached name id small known)

/-- The record of a private symbol is not changed by registering others. -/
theorem Private.after (own : table.Private id) (found : table.records[id]? = some record)
    (call : Registration) : (table.after call).records[id]? = some record := by
  have other {name : String} {place : SymbolId} {now : Symbol}
      (known : table.lookup name = some place) :
      (table.records.setIfInBounds place now)[id]? = some record := by
    have different : place ≠ id := by
      rintro rfl
      exact own name known
    rw [Array.getElem?_setIfInBounds, if_neg different, found]
  rcases after_cases table call with same | ⟨symbol, place, next, -, adds, same⟩ |
    ⟨symbol, -, same⟩
  · rw [same, found]
  · rw [same]
    cases adds with
    | introduced =>
      rw [records_introduce]
      exact getElem?_push_of_some symbol found
    | kept => exact found
    | strengthened known => exact other known
    | replaced known =>
      rw [records_resolve]
      exact other known
  · rw [same, records_addLocal]
    exact getElem?_push_of_some symbol found

theorem Private.run (own : table.Private id) (wf : table.WellFormed)
    (found : table.records[id]? = some record) (calls : List Registration) :
    (table.run calls).records[id]? = some record := by
  induction calls generalizing table with
  | nil => exact found
  | cons call rest ih =>
    obtain ⟨wf', later⟩ := after_preserves wf call
    exact ih (own.later (lt_size_of_getElem? found) later) wf' (own.after found call)

/-! ## Ids that were given out -/

/-- The id was given to this symbol. It has a record of the symbol's name and kind. The name leads
to it, unless the symbol is private: then the record is the symbol as it was registered. -/
structure Binds (table : SymbolTable) (symbol : Symbol) (id : SymbolId) : Prop where
  record : ∃ record, table.records[id]? = some record ∧ record.name = symbol.name ∧
    record.target.kind = symbol.target.kind
  shared : symbol.isLocal = false → table.lookup symbol.name = some id
  own : symbol.isLocal = true → table.Private id ∧ table.records[id]? = some symbol

theorem Binds.lt_size (binds : table.Binds symbol id) : id < table.records.size := by
  obtain ⟨record, found, -⟩ := binds.record
  exact lt_size_of_getElem? found

theorem Binds.later (binds : table.Binds symbol id) (wf : table.WellFormed)
    (reached : ReachedBy P table next) : next.Binds symbol id where
  record := by
    obtain ⟨record, found, name, kind⟩ := binds.record
    obtain ⟨now, stands, becomes⟩ := (reached.later wf).2.record id record found
    exact ⟨now, stands, becomes.name.trans name, becomes.kind.trans kind⟩
  shared := fun visible => (reached.later wf).2.lookup symbol.name id (binds.shared visible)
  own := by
    intro hidden
    obtain ⟨own, found⟩ := binds.own hidden
    refine ⟨own.later (lt_size_of_getElem? found) (reached.later wf).2, ?_⟩
    obtain ⟨calls, rfl, -⟩ := reached
    exact own.run wf found calls

/-- Registering a symbol in the way that its flags ask for gives it an id, which is a new one if the
symbol is private. -/
theorem binds_of_register (wf : table.WellFormed)
    (h : table.register (if symbol.isLocal then .own symbol else .shared symbol) =
      .ok (id, next)) :
    next.Binds symbol id ∧ (symbol.isLocal = true → id = table.records.size) := by
  split at h
  · next hidden =>
    cases h
    have fresh : ((table.addLocal symbol).2.records)[table.records.size]? = some symbol := by simp
    refine ⟨⟨⟨symbol, fresh, rfl, rfl⟩, fun visible => ?_, fun _ => ⟨?_, fresh⟩⟩, fun _ => rfl⟩
    · rw [hidden] at visible
      cases visible
    · exact lookup_ne_of_addLocal wf symbol []
  · next visible =>
    obtain ⟨record, found, kind⟩ := registered_of_register wf h
    have adds := adds_of_add_eq_ok h
    have known := lookup_of_adds adds
    have name := (wf.of_adds adds).name_eq known found
    exact ⟨⟨⟨record, found, name, kind⟩, fun _ => known, fun hidden => absurd hidden visible⟩,
      fun hidden => absurd hidden visible⟩

end StaticLink.SymbolTable
