import StaticLink.Proofs.SymbolTable.Order
import StaticLink.Proofs.SymbolTable.Targets

/-!
# Which symbols decide the record of a name

Where the symbols of a name have no twins, their order does not matter much. This module says what
their record is in any order, twins or not.

* `SymbolTable.exists_settled_of_register`: a registration settles one record.
* `refers_of_settleFrom`: the record is a reference exactly if all symbols are, a weak one if all are weak,
  and it is for the first of them.
* `Shadowed`: the first definition is weak, and every strong one has its target.
* `isStrongDefinition_of_settleFrom`: the record is a strong definition exactly if there is one that
  is not shadowed.
-/

namespace StaticLink

variable {symbols : List Symbol} {symbol record next : Symbol}

/-! ## One registration -/

namespace SymbolTable

variable {table next : SymbolTable} {id : SymbolId} {call : Registration}

/-- A registration settles the record of its symbol, and leaves the others as they are. -/
theorem exists_settled_of_register (h : table.register call = .ok (id, next)) :
    ∃ record, Symbol.settle table.records[id]? call.symbol = .ok record ∧
      next.records[id]? = some record ∧
      ∀ other, other ≠ id → next.records[other]? = table.records[other]? := by
  have pushed {symbol : Symbol} (records : next.records = table.records.push symbol) :
      Symbol.settle table.records[table.records.size]? symbol = .ok symbol ∧
        next.records[table.records.size]? = some symbol ∧
        ∀ other, other ≠ table.records.size → next.records[other]? = table.records[other]? := by
    rw [records, Array.getElem?_eq_none (Nat.le_refl _)]
    refine ⟨rfl, Array.getElem?_push_size, fun other apart => ?_⟩
    rw [Array.getElem?_push, if_neg apart]
  have set {existing symbol : Symbol} (found : table.records[id]? = some existing)
      (records : next.records = table.records.setIfInBounds id symbol) :
      next.records[id]? = some symbol ∧
        ∀ other, other ≠ id → next.records[other]? = table.records[other]? := by
    rw [records, Array.getElem?_setIfInBounds_self_of_lt (lt_size_of_getElem? found)]
    refine ⟨rfl, fun other apart => ?_⟩
    rw [Array.getElem?_setIfInBounds, if_neg (Ne.symm apart)]
  cases call with
  | own symbol =>
    cases h
    exact ⟨symbol, pushed (records_addLocal table symbol)⟩
  | shared symbol =>
    cases adds_of_add_eq_ok h with
    | introduced => exact ⟨symbol, pushed (records_introduce table symbol)⟩
    | @kept _ existing _ found merged =>
      refine ⟨existing, ?_, found, fun _ _ => rfl⟩
      rw [found, Registration.symbol, Symbol.settle_some, merged]
      rfl
    | @strengthened _ existing _ found merged =>
      refine ⟨existing.strengthened, ?_, set found rfl⟩
      rw [found, Registration.symbol, Symbol.settle_some, merged]
      rfl
    | replaced _ found merged =>
      refine ⟨symbol, ?_, set found (records_resolve ..)⟩
      rw [found, Registration.symbol, Symbol.settle_some, merged]
      rfl

end SymbolTable

/-! ## References -/

/-- What a record says of the references among its symbols. -/
structure Refers (symbols : List Symbol) (record : Symbol) : Prop where
  undefined : record.isUndefined = symbols.all (·.isUndefined)
  weak : record.isUndefined = true → record.isWeak = symbols.all (·.isWeak)
  target : record.isUndefined = true → symbols.head?.map (·.target) = some record.target

/-- Where a definition arrives, no reference is left. -/
theorem Symbol.isUndefined_of_settle {standing : Option Symbol}
    (incoming : symbol.isUndefined = false) (settled : Symbol.settle standing symbol = .ok record) :
    record.isUndefined = false := by
  rcases standing with _ | existing
  · cases settled
    exact incoming
  · obtain ⟨merge, merged, rfl⟩ := Symbol.exists_merge_of_settle settled
    cases merge with
    | keep =>
      rcases (Symbol.merge_eq_keep_iff.1 merged).2 with ⟨reference, -⟩ | ⟨-, standing, -⟩
      · rw [incoming] at reference
        cases reference
      · exact standing
    | strengthen =>
      have reference := (Symbol.merge_eq_strengthen_iff.1 merged).2.1
      rw [incoming] at reference
      cases reference
    | replace => exact incoming

theorem Refers.settle (refers : Refers symbols record)
    (settled : Symbol.settle (some record) symbol = .ok next) :
    Refers (symbols ++ [symbol]) next := by
  obtain ⟨undefined, weak, target⟩ := refers
  rcases incoming : symbol.isUndefined
  · have defined := Symbol.isUndefined_of_settle incoming settled
    refine ⟨?_, ?_, ?_⟩
    · simp [defined, incoming]
    · rw [defined]
      simp
    · rw [defined]
      simp
  · obtain rfl := Symbol.settle_reference incoming settled
    split
    · next both =>
      obtain ⟨reference, strong⟩ := Bool.and_eq_true_iff.1 both
      have same : record.strengthened.isUndefined = record.isUndefined := rfl
      refine ⟨?_, fun _ => ?_, fun _ => ?_⟩
      · rw [same, undefined]
        simp [incoming]
      · have flag : symbol.isWeak = false := by simpa using strong
        rw [Symbol.isWeak_strengthened, List.all_append, List.all_cons, flag]
        simp
      · rw [Symbol.target_strengthened, List.head?_append]
        obtain ⟨first, head, here⟩ := Option.map_eq_some_iff.1 (target reference)
        rw [head, Option.some_or, Option.map_some, here]
    · next neither =>
      refine ⟨?_, fun reference => ?_, fun reference => ?_⟩
      · rw [undefined]
        simp [incoming]
      · rw [weak reference, List.all_append]
        rw [reference] at neither
        have flag : symbol.isWeak = true := by simpa using neither
        simp [flag]
      · obtain ⟨first, head, here⟩ := Option.map_eq_some_iff.1 (target reference)
        rw [List.head?_append, head, Option.some_or, Option.map_some, here]

theorem refers_of_settleFrom (h : settleFrom none symbols = .ok (some record)) :
    Refers symbols record := by
  refine settleFrom_keeps (P := Refers) (fun symbol => ?_) (fun _ _ _ _ => .settle) h
  constructor <;> simp

/-! ## Strong definitions -/

/-- The first definition among the symbols is weak, and all strong ones have the same target. Then
they are taken to be the weak one. -/
def Shadowed (symbols : List Symbol) : Prop :=
  ∃ first, symbols.find? (·.isDefinition) = some first ∧ first.isWeak = true ∧
    ∀ strong ∈ symbols, strong.isStrongDefinition = true → strong.target = first.target

/-- What a record says of the definitions among its symbols. -/
inductive DefinedBy (symbols : List Symbol) (record : Symbol) : Prop
  | references (all : symbols.find? (·.isDefinition) = none)
      (undefined : record.isDefinition = false)
  | weak (first : symbols.find? (·.isDefinition) = some record) (weak : record.isWeak = true)
      (twins : ∀ strong ∈ symbols, strong.isStrongDefinition = true →
        strong.target = record.target)
  | strong (member : record ∈ symbols) (strong : record.isStrongDefinition = true)
      (apart : ¬ Shadowed symbols)

theorem not_shadowed_concat (apart : ¬ Shadowed symbols)
    (defined : symbols.find? (·.isDefinition) ≠ none) (symbol : Symbol) :
    ¬ Shadowed (symbols ++ [symbol]) := by
  rintro ⟨first, here, weak, all⟩
  obtain ⟨before, found⟩ := Option.ne_none_iff_exists'.1 defined
  rw [List.find?_append, found, Option.some_or] at here
  cases here
  exact apart ⟨_, found, weak, fun strong member => all strong (List.mem_append_left _ member)⟩

/-- The first definition of a name is its record. -/
theorem definedBy_of_references (all : symbols.find? (·.isDefinition) = none)
    (undefined : record.isDefinition = false)
    (settled : Symbol.settle (some record) symbol = .ok next) :
    DefinedBy (symbols ++ [symbol]) next := by
  obtain ⟨merge, merged, rfl⟩ := Symbol.exists_merge_of_settle settled
  have last : symbol ∈ symbols ++ [symbol] :=
    List.mem_append_right _ (List.mem_singleton_self symbol)
  have reference : record.isUndefined = true := by simpa [Symbol.isDefinition] using undefined
  have find : (symbols ++ [symbol]).find? (·.isDefinition) =
      if symbol.isDefinition then some symbol else none := by
    rw [List.find?_append, all, Option.none_or, List.find?_singleton]
  rcases incoming : symbol.isDefinition
  · rw [incoming] at find
    refine .references find ?_
    cases merge with
    | keep => exact undefined
    | strengthen => exact undefined
    | replace => exact incoming
  · rw [incoming] at find
    -- A definition takes the place of a reference.
    have replaced : merge = .replace := by
      unfold Symbol.merge at merged
      simp only [Symbol.isDefinition] at incoming
      grind
    subst replaced
    rcases flag : symbol.isWeak
    · refine .strong last (by rw [Symbol.isStrongDefinition, incoming, flag]; rfl) ?_
      rintro ⟨first, here, weak, -⟩
      rw [find] at here
      cases here
      rw [flag] at weak
      cases weak
    · refine .weak find flag fun strong member isStrong => ?_
      rcases List.mem_append.1 member with member | member
      · have none := List.find?_eq_none.1 all strong member
        rw [Symbol.isStrongDefinition] at isStrong
        simp [(Bool.and_eq_true_iff.1 isStrong).1] at none
      · rw [List.mem_singleton.1 member]

/-- A weak definition gives way to a strong one of another target only. -/
theorem definedBy_of_weak (first : symbols.find? (·.isDefinition) = some record)
    (weak : record.isWeak = true)
    (twins : ∀ strong ∈ symbols, strong.isStrongDefinition = true → strong.target = record.target)
    (settled : Symbol.settle (some record) symbol = .ok next) :
    DefinedBy (symbols ++ [symbol]) next := by
  obtain ⟨merge, merged, rfl⟩ := Symbol.exists_merge_of_settle settled
  have last : symbol ∈ symbols ++ [symbol] :=
    List.mem_append_right _ (List.mem_singleton_self symbol)
  have defined : record.isDefinition = true := by simpa using List.find?_some first
  have find : (symbols ++ [symbol]).find? (·.isDefinition) = some record := by
    rw [List.find?_append, first, Option.some_or]
  cases merge with
  | keep =>
    refine .weak find weak fun strong member isStrong => ?_
    rcases List.mem_append.1 member with member | member
    · exact twins strong member isStrong
    · rw [List.mem_singleton.1 member] at isStrong ⊢
      rw [Symbol.merge_eq_keep_iff] at merged
      simp only [Symbol.isStrongDefinition, Symbol.isDefinition] at *
      grind
  | strengthen =>
    have reference := (Symbol.merge_eq_strengthen_iff.1 merged).2.2.1
    rw [Symbol.isDefinition, reference] at defined
    cases defined
  | replace =>
    obtain ⟨-, incoming, weaker⟩ := Symbol.merge_eq_replace_iff.1 merged
    rcases weaker with reference | ⟨-, strong, target, -⟩
    · rw [Symbol.isDefinition, reference] at defined
      cases defined
    · have isStrong : symbol.isStrongDefinition = true := by
        rw [Symbol.isStrongDefinition, Symbol.isDefinition, incoming, strong]
        rfl
      refine .strong last isStrong ?_
      rintro ⟨other, here, -, all⟩
      rw [find] at here
      cases here
      exact target (all symbol last isStrong).symm

/-- A strong definition stays. -/
theorem definedBy_of_strong (member : record ∈ symbols) (strong : record.isStrongDefinition = true)
    (apart : ¬ Shadowed symbols) (settled : Symbol.settle (some record) symbol = .ok next) :
    DefinedBy (symbols ++ [symbol]) next := by
  obtain ⟨merge, merged, rfl⟩ := Symbol.exists_merge_of_settle settled
  obtain ⟨defined, -⟩ := Bool.and_eq_true_iff.1 strong
  have kept : merge = .keep := by
    unfold Symbol.merge at merged
    simp only [Symbol.isStrongDefinition, Symbol.isDefinition] at *
    grind
  subst kept
  refine .strong (List.mem_append_left _ member) strong (not_shadowed_concat apart ?_ symbol)
  intro none
  have all := List.find?_eq_none.1 none record member
  simp [defined] at all

theorem DefinedBy.settle (by' : DefinedBy symbols record)
    (settled : Symbol.settle (some record) symbol = .ok next) :
    DefinedBy (symbols ++ [symbol]) next := by
  cases by' with
  | references all undefined => exact definedBy_of_references all undefined settled
  | weak first weak twins => exact definedBy_of_weak first weak twins settled
  | strong member strong apart => exact definedBy_of_strong member strong apart settled

theorem definedBy_of_settleFrom (h : settleFrom none symbols = .ok (some record)) :
    DefinedBy symbols record := by
  refine settleFrom_keeps (P := DefinedBy) (fun symbol => ?_) (fun _ _ _ _ => .settle) h
  have find : [symbol].find? (·.isDefinition) =
      if symbol.isDefinition then some symbol else none := by rw [List.find?_singleton]
  rcases defined : symbol.isDefinition
  · rw [defined] at find
    exact .references find defined
  · rw [defined] at find
    rcases flag : symbol.isWeak
    · refine .strong (List.mem_singleton_self symbol)
        (by rw [Symbol.isStrongDefinition, defined, flag]; rfl) ?_
      rintro ⟨first, here, weak, -⟩
      rw [find] at here
      cases here
      rw [flag] at weak
      cases weak
    · refine .weak find flag fun strong member _ => ?_
      rw [List.mem_singleton.1 member]

/-- The record of a name is a strong definition exactly if a symbol is one, and is not taken for a
weak definition of the same target before it. -/
theorem isStrongDefinition_of_settleFrom (h : settleFrom none symbols = .ok (some record)) :
    record.isStrongDefinition = true ↔
      (∃ symbol ∈ symbols, symbol.isStrongDefinition = true) ∧ ¬ Shadowed symbols := by
  cases definedBy_of_settleFrom h with
  | references all undefined =>
    refine iff_of_false ?_ ?_
    · rw [Symbol.isStrongDefinition, undefined]
      simp
    · rintro ⟨⟨symbol, member, strong⟩, -⟩
      have none := List.find?_eq_none.1 all symbol member
      simp [(Bool.and_eq_true_iff.1 strong).1] at none
  | weak first weak twins =>
    refine iff_of_false ?_ ?_
    · rw [Symbol.isStrongDefinition, weak]
      simp
    · rintro ⟨-, apart⟩
      exact apart ⟨record, first, weak, twins⟩
  | strong member strong apart => exact iff_of_true strong ⟨⟨record, member, strong⟩, apart⟩

/-- A name has a record exactly if it has symbols. -/
theorem exists_record_of_settleFrom {standing : Option Symbol}
    (h : settleFrom none symbols = .ok standing) (any : symbols ≠ []) :
    ∃ record, standing = some record := by
  rcases standing with _ | record
  · exact absurd (settleFrom_none_eq_ok_none h) any
  · exact ⟨record, rfl⟩

end StaticLink
