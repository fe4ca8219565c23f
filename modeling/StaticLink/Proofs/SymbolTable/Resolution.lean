import Mathlib.Data.List.Induction
import StaticLink.Proofs.SymbolTable.Permanence

/-!
# Symbol resolution in closed form

The record of a name comes out of a long history of merges. This module says what it is in terms of
that history alone.

* `SymbolTable.record?`: the table as a map from names to records. `SymbolTable.add` changes one
  entry of it, by `Symbol.settle`, or fails (`SymbolTable.add_settles`).
* `resolution`: the record that a list of symbols of one name comes to: the first strong definition,
  else the first weak one, else the first reference.
* `Refused`: the two reasons for which a symbol is not accepted.
* `SymbolTable.addAll_resolves`: what is refused and what every name stands for, after any run.
-/

namespace StaticLink

namespace Symbol

/-- Whether the symbol is a definition that gives way to a strong one. -/
def isWeakDefinition (symbol : Symbol) : Bool := symbol.isDefinition && symbol.isWeak

/-- The record of a name after `incoming` arrives, given the one before it, if there is one. -/
def settle (standing : Option Symbol) (incoming : Symbol) : Except Error Symbol :=
  match standing with
  | none => .ok incoming
  | some existing => (existing.merge incoming).map fun
    | .keep => existing
    | .strengthen => existing.strengthened
    | .replace => incoming

variable {standing symbol record : Symbol}

theorem settle_some (standing symbol : Symbol) :
    settle (some standing) symbol = (standing.merge symbol).map fun
      | .keep => standing
      | .strengthen => standing.strengthened
      | .replace => symbol := rfl

/-- What is settled is what the merge of the two symbols says. -/
theorem exists_merge_of_settle (settled : settle (some standing) symbol = .ok record) :
    ∃ merge, standing.merge symbol = .ok merge ∧ record = match merge with
      | .keep => standing
      | .strengthen => standing.strengthened
      | .replace => symbol := by
  rw [settle_some] at settled
  rcases merged : standing.merge symbol with error | merge
  · rw [merged] at settled
    cases settled
  · rw [merged] at settled
    cases settled
    exact ⟨merge, rfl, rfl⟩

theorem settle_eq_error_iff {error : Error} :
    settle (some standing) symbol = .error error ↔ standing.merge symbol = .error error := by
  rw [settle_some]
  cases standing.merge symbol with
  | error => rw [Except.map, Except.error.injEq, Except.error.injEq]
  | ok => simp [Except.map]

/-- A reference takes the weak flag off a weak reference, or changes nothing. -/
theorem settle_reference (undefined : symbol.isUndefined = true)
    (settled : settle (some standing) symbol = .ok record) :
    record = if standing.isUndefined && !symbol.isWeak then standing.strengthened
      else standing := by
  have strong : standing.isWeak = false → standing.strengthened = standing :=
    strengthened_of_strong
  obtain ⟨merge, merged, rfl⟩ := exists_merge_of_settle settled
  unfold Symbol.merge at merged
  cases merge <;> grind

/-- A weak definition takes the place of a reference. -/
theorem settle_weak (weak : symbol.isWeakDefinition = true)
    (settled : settle (some standing) symbol = .ok record) :
    record = if standing.isUndefined then symbol else standing := by
  unfold isWeakDefinition isDefinition at weak
  obtain ⟨merge, merged, rfl⟩ := exists_merge_of_settle settled
  unfold Symbol.merge at merged
  cases merge <;> grind

/-- A strong definition takes the place of anything but another one. -/
theorem settle_strong (strong : symbol.isStrongDefinition = true)
    (apart : standing.isDefinition = true → standing.target ≠ symbol.target)
    (settled : settle (some standing) symbol = .ok record) :
    standing.isStrongDefinition = false ∧ record = symbol := by
  unfold isStrongDefinition isDefinition at *
  obtain ⟨merge, merged, rfl⟩ := exists_merge_of_settle settled
  unfold Symbol.merge at merged
  cases merge <;> grind

end Symbol

namespace SymbolTable

variable {table next : SymbolTable} {symbol : Symbol} {id : SymbolId}

/-! ## The table as a map -/

/-- The record that stands for `name`. -/
def record? (table : SymbolTable) (name : String) : Option Symbol :=
  (table.lookup name).bind fun id => table.records[id]?

theorem record?_of_lookup {name : String} {record : Symbol} (known : table.lookup name = some id)
    (found : table.records[id]? = some record) : table.record? name = some record := by
  rw [record?, known, Option.bind_some, found]

theorem record?_of_lookup_eq_none {name : String} (new : table.lookup name = none) :
    table.record? name = none := by
  rw [record?, new, Option.bind_none]

/-- A new name gets the new record, and the other names keep theirs. -/
theorem record?_introduce (wf : table.WellFormed) (new : table.lookup symbol.name = none)
    (name : String) :
    (table.introduce symbol).record? name =
      if name = symbol.name then some symbol else table.record? name := by
  by_cases same : name = symbol.name
  · subst same
    rw [if_pos rfl]
    have leads : (table.introduce symbol).lookup symbol.name = some table.records.size := by
      rw [lookup_introduce, new, if_pos rfl]
      rfl
    exact record?_of_lookup leads (by simp)
  · rw [if_neg same, record?, record?, lookup_introduce, if_neg (Ne.symm same), Option.or_none]
    rcases known : table.lookup name with _ | id
    · rfl
    · obtain ⟨record, found, -⟩ := wf.named name id known
      rw [Option.bind_some, Option.bind_some, records_introduce, found]
      exact getElem?_push_of_some symbol found

/-- Another record for one id changes what one name leads to. -/
theorem record?_of_set {new : SymbolTable} {existing record : Symbol} {known : String}
    (wf : table.WellFormed) (names : new.names = table.names)
    (records : new.records = table.records.setIfInBounds id record)
    (leads : table.lookup known = some id) (found : table.records[id]? = some existing)
    (name : String) :
    new.record? name = if name = known then some record else table.record? name := by
  have lookup : new.lookup name = table.lookup name := by
    rw [SymbolTable.lookup, names, SymbolTable.lookup]
  by_cases same : name = known
  · subst same
    rw [if_pos rfl]
    refine record?_of_lookup (lookup.trans leads) ?_
    rw [records, Array.getElem?_setIfInBounds, if_pos rfl, if_pos (lt_size_of_getElem? found)]
  · rw [if_neg same, record?, record?, lookup]
    rcases other : table.lookup name with _ | place
    · rfl
    · -- Different names have different ids, so the record of this one is not the changed one.
      have apart : id ≠ place := by
        intro equal
        subst equal
        exact same (wf.lookup_injective other leads)
      rw [Option.bind_some, Option.bind_some, records, Array.getElem?_setIfInBounds,
        if_neg apart]

/-- What an accepted symbol does to the map. -/
theorem record?_of_adds (wf : table.WellFormed) (adds : Adds table symbol id next) :
    ∃ record, Symbol.settle (table.record? symbol.name) symbol = .ok record ∧
      ∀ name, next.record? name =
        if name = symbol.name then some record else table.record? name := by
  cases adds with
  | introduced new =>
    rw [record?_of_lookup_eq_none new]
    exact ⟨symbol, rfl, record?_introduce wf new⟩
  | @kept _ existing known found merged =>
    have standing := record?_of_lookup known found
    refine ⟨existing, by rw [standing, Symbol.settle, merged]; rfl, ?_⟩
    intro name
    by_cases same : name = symbol.name
    · rw [if_pos same, same, standing]
    · rw [if_neg same]
  | @strengthened _ existing known found merged =>
    have standing := record?_of_lookup known found
    exact ⟨existing.strengthened, by rw [standing, Symbol.settle, merged]; rfl,
      record?_of_set wf rfl rfl known found⟩
  | @replaced _ existing known found merged =>
    have standing := record?_of_lookup known found
    exact ⟨symbol, by rw [standing, Symbol.settle, merged]; rfl,
      record?_of_set wf (names_resolve ..) (records_resolve ..) known found⟩

/-- `add` in terms of the map: it settles the record of one name or fails with the error of
settling it. -/
theorem add_settles (wf : table.WellFormed) (symbol : Symbol) :
    match table.add symbol with
    | .error error => Symbol.settle (table.record? symbol.name) symbol = .error error
    | .ok (_, next) => ∃ record, Symbol.settle (table.record? symbol.name) symbol = .ok record ∧
        ∀ name, next.record? name =
          if name = symbol.name then some record else table.record? name := by
  rcases outcome : table.add symbol with error | ⟨id, next⟩
  · rcases known : table.lookup symbol.name with _ | id
    · rw [add_of_lookup_eq_none known] at outcome
      cases outcome
    · obtain ⟨existing, found, -⟩ := wf.named symbol.name id known
      rw [add_of_lookup known found] at outcome
      show Symbol.settle (table.record? symbol.name) symbol = .error error
      rw [record?_of_lookup known found, Symbol.settle]
      rcases merged : existing.merge symbol with cause | merge
      · rw [merged] at outcome
        cases outcome
        rfl
      · rw [merged] at outcome
        cases merge <;> cases outcome
  · exact record?_of_adds wf (adds_of_add_eq_ok outcome)

theorem add_eq_error_iff (wf : table.WellFormed) {error : Error} :
    table.add symbol = .error error ↔
      Symbol.settle (table.record? symbol.name) symbol = .error error := by
  have settles := add_settles wf symbol
  rcases outcome : table.add symbol with cause | ⟨id, next⟩
  · rw [outcome] at settles
    have settles : Symbol.settle (table.record? symbol.name) symbol = .error cause := settles
    rw [settles, Except.error.injEq, Except.error.injEq]
  · rw [outcome] at settles
    obtain ⟨record, settled, -⟩ := settles
    rw [settled]
    simp

end SymbolTable

/-! ## What a history comes to -/

/-- The record that `symbols`, all of one name and each accepted in its turn, come to. -/
def resolution (symbols : List Symbol) : Option Symbol :=
  match symbols.find? (·.isStrongDefinition), symbols.find? (·.isWeakDefinition) with
  | some strong, _ => some strong
  | none, some weak => some weak
  | none, none => symbols.head?.map fun first =>
    if symbols.all (·.isWeak) then first else first.strengthened

variable {history : List Symbol} {symbol standing : Symbol}

/-- The three kinds of records that a history can come to. -/
theorem resolution_cases (h : resolution history = some standing) :
    history.find? (·.isStrongDefinition) = some standing ∨
      history.find? (·.isStrongDefinition) = none ∧
        history.find? (·.isWeakDefinition) = some standing ∨
      history.find? (·.isStrongDefinition) = none ∧
        history.find? (·.isWeakDefinition) = none ∧ ∃ first, history.head? = some first ∧
          standing = if history.all (·.isWeak) then first else first.strengthened := by
  unfold resolution at h
  rcases strong : history.find? (·.isStrongDefinition) with _ | s
  · rw [strong] at h
    rcases weak : history.find? (·.isWeakDefinition) with _ | w
    · rw [weak] at h
      obtain ⟨first, head, rfl⟩ := Option.map_eq_some_iff.1 h
      exact .inr (.inr ⟨strong, weak, first, head, rfl⟩)
    · rw [weak] at h
      exact .inr (.inl ⟨strong, weak.trans h⟩)
  · rw [strong] at h
    exact .inl (strong.trans h)

/-- Every symbol without a definition among its like is a reference. -/
theorem isUndefined_of_find?_eq_none (strong : history.find? (·.isStrongDefinition) = none)
    (weak : history.find? (·.isWeakDefinition) = none) (member : symbol ∈ history) :
    symbol.isUndefined = true := by
  have notStrong := List.find?_eq_none.1 strong symbol member
  have notWeak := List.find?_eq_none.1 weak symbol member
  simp only [Symbol.isStrongDefinition, Symbol.isWeakDefinition, Symbol.isDefinition] at *
  rcases undefined : symbol.isUndefined <;> rcases flag : symbol.isWeak <;>
    simp [undefined, flag] at notStrong notWeak ⊢

/-- The record of a history that holds no definition is weak if every reference is. -/
theorem reference_of_resolution {first : Symbol}
    (strong : history.find? (·.isStrongDefinition) = none)
    (weak : history.find? (·.isWeakDefinition) = none) (head : history.head? = some first)
    (same : standing = if history.all (·.isWeak) then first else first.strengthened) :
    standing.isUndefined = true ∧ standing.isWeak = history.all (·.isWeak) := by
  have member : first ∈ history := List.mem_of_mem_head? head
  have undefined := isUndefined_of_find?_eq_none strong weak member
  rcases every : history.all (·.isWeak)
  · rw [every] at same
    subst same
    exact ⟨undefined, Symbol.isWeak_strengthened first⟩
  · rw [every] at same
    subst same
    exact ⟨undefined, List.all_eq_true.1 every _ member⟩

/-- The first strong definition among the symbols is what they come to. -/
theorem isStrongDefinition_resolution (h : resolution history = some standing) :
    standing.isStrongDefinition = true ↔
      history.find? (·.isStrongDefinition) = some standing := by
  constructor
  · intro isStrong
    rcases resolution_cases h with strong | ⟨-, weak⟩ | ⟨none, noWeak, first, head, same⟩
    · exact strong
    · have isWeak := List.find?_some weak
      simp only [Symbol.isStrongDefinition, Symbol.isWeakDefinition, Bool.and_eq_true] at *
      simp [isWeak.2] at isStrong
    · have undefined := (reference_of_resolution none noWeak head same).1
      simp [Symbol.isStrongDefinition, Symbol.isDefinition, undefined] at isStrong
  · intro first
    exact List.find?_some first

theorem resolution_of_find?_eq_some (first : history.find? (·.isStrongDefinition) = some standing) :
    resolution history = some standing := by
  rw [resolution, first]

/-- The record of a history that holds a definition is one of its definitions. -/
theorem mem_of_resolution (h : resolution history = some standing)
    (defined : standing.isDefinition = true) : standing ∈ history := by
  rcases resolution_cases h with strong | ⟨-, weak⟩ | ⟨none, noWeak, first, head, same⟩
  · exact List.mem_of_find?_eq_some strong
  · exact List.mem_of_find?_eq_some weak
  · have undefined := (reference_of_resolution none noWeak head same).1
    simp [Symbol.isDefinition, undefined] at defined

theorem resolution_eq_none_iff : resolution history = none ↔ history = [] := by
  constructor
  · intro h
    unfold resolution at h
    split at h
    · cases h
    · cases h
    · exact List.head?_eq_none_iff.1 (Option.map_eq_none_iff.1 h)
  · rintro rfl
    rfl

theorem resolution_singleton (symbol : Symbol) : resolution [symbol] = some symbol := by
  unfold resolution
  rcases strong : symbol.isStrongDefinition
  · rcases weak : symbol.isWeakDefinition
    · rcases flag : symbol.isWeak
      · simp [strong, weak, flag, Symbol.strengthened_of_strong flag]
      · simp [strong, weak, flag]
    · simp [strong, weak]
  · simp [strong]

/-! ## One more symbol in a history -/

/-- A strong definition that comes before all others. -/
theorem resolution_append_strong (none : history.find? (·.isStrongDefinition) = none)
    (strong : symbol.isStrongDefinition = true) :
    resolution (history ++ [symbol]) = some symbol := by
  unfold resolution
  rw [List.find?_append, none]
  simp [strong]

/-- A reference changes nothing where there is a definition. -/
theorem resolution_append_reference (undefined : symbol.isUndefined = true)
    (h : resolution history = some standing) (defined : standing.isDefinition = true) :
    resolution (history ++ [symbol]) = some standing := by
  have notStrong : symbol.isStrongDefinition = false := by
    simp [Symbol.isStrongDefinition, Symbol.isDefinition, undefined]
  have notWeak : symbol.isWeakDefinition = false := by
    simp [Symbol.isWeakDefinition, Symbol.isDefinition, undefined]
  rcases resolution_cases h with strong | ⟨none, weak⟩ | ⟨none, noWeak, first, head, same⟩
  · unfold resolution
    rw [List.find?_append, strong]
    rfl
  · unfold resolution
    rw [List.find?_append, List.find?_append, none, weak]
    simp [notStrong]
  · have undefined := (reference_of_resolution none noWeak head same).1
    simp [Symbol.isDefinition, undefined] at defined

/-- A history of references is weak until a strong reference comes. -/
theorem resolution_append_references (undefined : symbol.isUndefined = true)
    (h : resolution history = some standing) (reference : standing.isUndefined = true) :
    resolution (history ++ [symbol]) =
      some (if symbol.isWeak then standing else standing.strengthened) := by
  have notStrong : symbol.isStrongDefinition = false := by
    simp [Symbol.isStrongDefinition, Symbol.isDefinition, undefined]
  have notWeak : symbol.isWeakDefinition = false := by
    simp [Symbol.isWeakDefinition, Symbol.isDefinition, undefined]
  rcases resolution_cases h with strong | ⟨-, weak⟩ | ⟨none, noWeak, first, head, same⟩
  · have isStrong := List.find?_some strong
    simp [Symbol.isStrongDefinition, Symbol.isDefinition, reference] at isStrong
  · have isWeak := List.find?_some weak
    simp [Symbol.isWeakDefinition, Symbol.isDefinition, reference] at isWeak
  · have head' : (history ++ [symbol]).head? = some first := by
      rw [List.head?_append, head]
      rfl
    have clear : first.strengthened.strengthened = first.strengthened :=
      Symbol.strengthened_of_strong (Symbol.isWeak_strengthened first)
    unfold resolution
    rw [List.find?_append, List.find?_append, none, noWeak, head', same]
    rcases every : history.all (·.isWeak) <;> rcases flag : symbol.isWeak <;>
      simp [notStrong, notWeak, every, flag, clear]

/-- A weak definition counts only after references. -/
theorem resolution_append_weak (weak : symbol.isWeakDefinition = true)
    (h : resolution history = some standing) :
    resolution (history ++ [symbol]) =
      some (if standing.isUndefined then symbol else standing) := by
  have notStrong : symbol.isStrongDefinition = false := by
    simp only [Symbol.isWeakDefinition, Bool.and_eq_true] at weak
    simp [Symbol.isStrongDefinition, weak]
  rcases resolution_cases h with strong | ⟨none, first⟩ | ⟨none, noWeak, first, head, same⟩
  · have isStrong := List.find?_some strong
    simp only [Symbol.isStrongDefinition, Symbol.isDefinition, Bool.and_eq_true,
      Bool.not_eq_true'] at isStrong
    unfold resolution
    rw [List.find?_append, strong, isStrong.1]
    rfl
  · have isWeak := List.find?_some first
    simp only [Symbol.isWeakDefinition, Symbol.isDefinition, Bool.and_eq_true,
      Bool.not_eq_true'] at isWeak
    unfold resolution
    rw [List.find?_append, List.find?_append, none, first, isWeak.1]
    simp [notStrong]
  · rw [(reference_of_resolution none noWeak head same).1]
    unfold resolution
    rw [List.find?_append, List.find?_append, none, noWeak]
    simp [notStrong, weak]

/-- Settling the record of a history with one more symbol gives the record of the longer history,
if no definition in it has the target of another. -/
theorem resolution_append (record : Symbol)
    (settled : Symbol.settle (resolution history) symbol = .ok record)
    (distinct : ∀ other ∈ history, other.isDefinition = true → symbol.isDefinition = true →
      other.target ≠ symbol.target) :
    resolution (history ++ [symbol]) = some record := by
  rcases h : resolution history with _ | standing
  · rw [resolution_eq_none_iff] at h
    subst h
    cases settled
    exact resolution_singleton symbol
  rw [h] at settled
  -- What arrives is a reference, a weak definition or a strong one.
  rcases undefined : symbol.isUndefined
  · have defined : symbol.isDefinition = true := by rw [Symbol.isDefinition, undefined]; rfl
    rcases weak : symbol.isWeak
    · have strong : symbol.isStrongDefinition = true := by
        rw [Symbol.isStrongDefinition, defined, weak]
        rfl
      have apart (isDefinition : standing.isDefinition = true) :
          standing.target ≠ symbol.target :=
        distinct standing (mem_of_resolution h isDefinition) isDefinition defined
      obtain ⟨notStrong, rfl⟩ := Symbol.settle_strong strong apart settled
      have none : history.find? (·.isStrongDefinition) = none := by
        rw [Option.eq_none_iff_forall_ne_some]
        intro earlier first
        have stands := resolution_of_find?_eq_some first
        rw [h, Option.some.injEq] at stands
        rw [stands, List.find?_some first] at notStrong
        cases notStrong
      exact resolution_append_strong none strong
    · have weakDefinition : symbol.isWeakDefinition = true := by
        rw [Symbol.isWeakDefinition, defined, weak]
        rfl
      rw [resolution_append_weak weakDefinition h, Symbol.settle_weak weakDefinition settled]
  · rw [Symbol.settle_reference undefined settled]
    rcases reference : standing.isUndefined
    · have defined : standing.isDefinition = true := by
        rw [Symbol.isDefinition, reference]
        rfl
      rw [resolution_append_reference undefined h defined]
      rfl
    · rw [resolution_append_references undefined h reference]
      cases symbol.isWeak <;> rfl

/-! ## Resolution of a run -/

/-- No two definitions of one name have equal targets. -/
def DistinctDefinitions (symbols : List Symbol) : Prop :=
  symbols.Pairwise fun first second => first.name = second.name →
    first.isDefinition = true → second.isDefinition = true → first.target ≠ second.target

instance (symbols : List Symbol) : Decidable (DistinctDefinitions symbols) :=
  inferInstanceAs (Decidable (List.Pairwise _ symbols))

theorem DistinctDefinitions.left {earlier later : List Symbol}
    (distinct : DistinctDefinitions (earlier ++ later)) : DistinctDefinitions earlier :=
  (List.pairwise_append.1 distinct).1

/-- Why a symbol is not accepted, given the accepted symbols of its name. -/
inductive Refused (history : List Symbol) (symbol : Symbol) : Error → Prop
  /-- The name stands for another kind. -/
  | kindMismatch {standing : Symbol} (stands : resolution history = some standing)
      (other : standing.target.kind ≠ symbol.target.kind) :
    Refused history symbol (.kindMismatch symbol.name standing.context standing.target.kind
      symbol.context symbol.target.kind)
  /-- There is a strong definition of the name. -/
  | symbolConflict {standing strong : Symbol} (stands : resolution history = some standing)
      (same : standing.target.kind = symbol.target.kind)
      (isStrong : symbol.isStrongDefinition = true)
      (first : history.find? (·.isStrongDefinition) = some strong) :
    Refused history symbol (.symbolConflict symbol.name strong.context symbol.context)

/-- Settling the record of a history fails for these reasons only. -/
theorem settle_eq_error_iff_refused {error : Error}
    (distinct : ∀ other ∈ history, other.isDefinition = true → symbol.isDefinition = true →
      other.target ≠ symbol.target) :
    Symbol.settle (resolution history) symbol = .error error ↔ Refused history symbol error := by
  rcases h : resolution history with _ | standing
  · constructor
    · rintro ⟨⟩
    · rintro (⟨stands, -⟩ | ⟨stands, -⟩) <;> rw [h] at stands <;> cases stands
  rw [Symbol.settle_eq_error_iff, Symbol.merge_eq_error_iff]
  constructor
  · rintro (⟨other, rfl⟩ | ⟨same, strong, isStrong, -, rfl⟩)
    · exact .kindMismatch h other
    · exact .symbolConflict h same isStrong ((isStrongDefinition_resolution h).1 strong)
  · rintro (⟨stands, other⟩ | @⟨_, strong, stands, same, isStrong, first⟩)
    · cases h.symm.trans stands
      exact .inl ⟨other, rfl⟩
    · cases h.symm.trans stands
      cases h.symm.trans (resolution_of_find?_eq_some first)
      have isDefinition (symbol : Symbol) (strong : symbol.isStrongDefinition = true) :
          symbol.isDefinition = true := (Bool.and_eq_true_iff.1 strong).1
      have strong : standing.isStrongDefinition = true := List.find?_some first
      exact .inr ⟨same, strong, isStrong, distinct standing (List.mem_of_find?_eq_some first)
        (isDefinition standing strong) (isDefinition symbol isStrong), rfl⟩

namespace SymbolTable

variable {table next : SymbolTable} {id : SymbolId}

/-- The symbols of a list that a table accepts, each in its turn. -/
def accepted (table : SymbolTable) : List Symbol → List Symbol
  | [] => []
  | symbol :: rest =>
    match table.add symbol with
    | .ok (_, next) => symbol :: next.accepted rest
    | .error _ => table.accepted rest

/-- The table after non-local symbols are added to an empty one, of which any may be refused. -/
def addAll (symbols : List Symbol) : SymbolTable := empty.run (symbols.map .shared)

/-- The symbols called `name` that are accepted when `symbols` are added to an empty table. -/
def historyOf (symbols : List Symbol) (name : String) : List Symbol :=
  (accepted empty symbols).filter (·.name == name)

theorem accepted_append (table : SymbolTable) (earlier later : List Symbol) :
    table.accepted (earlier ++ later) =
      table.accepted earlier ++ (table.run (earlier.map .shared)).accepted later := by
  induction earlier generalizing table with
  | nil => rfl
  | cons symbol earlier ih =>
    rcases outcome : table.add symbol with error | ⟨id, next⟩
    · have same : table.after (.shared symbol) = table := by
        simp only [after, register, outcome]
      simp only [List.cons_append, accepted, outcome, List.map_cons, run, List.foldl_cons, same]
      exact ih table
    · have moved : table.after (.shared symbol) = next := by
        simp only [after, register, outcome]
      simp only [List.cons_append, accepted, outcome, List.map_cons, run, List.foldl_cons, moved]
      rw [ih next]
      rfl

theorem accepted_sublist (table : SymbolTable) (symbols : List Symbol) :
    (table.accepted symbols).Sublist symbols := by
  induction symbols generalizing table with
  | nil => exact .slnil
  | cons symbol symbols ih =>
    rcases outcome : table.add symbol with error | ⟨id, next⟩
    · simp only [accepted, outcome]
      exact (ih table).cons symbol
    · simp only [accepted, outcome]
      exact (ih next).cons_cons symbol

theorem mem_historyOf {symbols : List Symbol} {name : String} {other : Symbol}
    (member : other ∈ historyOf symbols name) : other ∈ symbols ∧ other.name = name := by
  rw [historyOf, List.mem_filter, beq_iff_eq] at member
  exact ⟨(accepted_sublist empty symbols).subset member.1, member.2⟩

/-- The next symbol has a target of its own among the definitions of its name. -/
theorem ne_target_of_distinct {symbols : List Symbol}
    (distinct : DistinctDefinitions (symbols ++ [symbol])) :
    ∀ other ∈ historyOf symbols symbol.name, other.isDefinition = true →
      symbol.isDefinition = true → other.target ≠ symbol.target := by
  intro other member
  obtain ⟨among, name⟩ := mem_historyOf member
  exact (List.pairwise_append.1 distinct).2.2 other among symbol (List.mem_singleton_self symbol)
    name

theorem wellFormed_addAll (symbols : List Symbol) : (addAll symbols).WellFormed :=
  wellFormed_run _

theorem after_of_add_eq_ok (accepts : table.add symbol = .ok (id, next)) :
    table.after (.shared symbol) = next := by
  simp only [after, register, accepts]

theorem after_of_add_eq_error {error : Error} (refuses : table.add symbol = .error error) :
    table.after (.shared symbol) = table := by
  simp only [after, register, refuses]

theorem historyOf_append (symbols : List Symbol) (symbol : Symbol) (name : String) :
    historyOf (symbols ++ [symbol]) name =
      historyOf symbols name ++ ((addAll symbols).accepted [symbol]).filter (·.name == name) := by
  rw [historyOf, accepted_append, List.filter_append]
  rfl

theorem accepted_of_add_eq_ok (accepts : table.add symbol = .ok (id, next)) :
    table.accepted [symbol] = [symbol] := by
  simp only [accepted, accepts]

theorem accepted_of_add_eq_error {error : Error} (refuses : table.add symbol = .error error) :
    table.accepted [symbol] = [] := by
  simp only [accepted, refuses]

theorem addAll_append (symbols : List Symbol) (symbol : Symbol) :
    addAll (symbols ++ [symbol]) = (addAll symbols).after (.shared symbol) := by
  rw [addAll, List.map_append, run_append]
  rfl

/-- The record of every name is what the accepted symbols of that name come to. -/
theorem record?_addAll (symbols : List Symbol) (distinct : DistinctDefinitions symbols)
    (name : String) : (addAll symbols).record? name = resolution (historyOf symbols name) := by
  induction symbols using List.reverseRecOn generalizing name with
  | nil => rfl
  | append_singleton symbols symbol ih =>
    have before := ih distinct.left
    have settles := add_settles (wellFormed_addAll symbols) symbol
    rw [before] at settles
    rcases outcome : (addAll symbols).add symbol with error | ⟨id, next⟩
    · -- A refused symbol changes neither the table nor the history.
      rw [addAll_append, after_of_add_eq_error outcome, historyOf_append,
        accepted_of_add_eq_error outcome, List.filter_nil, List.append_nil]
      exact before name
    · rw [outcome] at settles
      obtain ⟨record, settled, records⟩ := settles
      rw [addAll_append, after_of_add_eq_ok outcome, historyOf_append,
        accepted_of_add_eq_ok outcome, records]
      by_cases same : name = symbol.name
      · subst same
        rw [if_pos rfl, List.filter_cons_of_pos (by simp), List.filter_nil]
        exact (resolution_append record settled (ne_target_of_distinct distinct)).symm
      · rw [if_neg same, List.filter_cons_of_neg (by simpa using Ne.symm same), List.filter_nil,
          List.append_nil]
        exact before name

/-- The outcome of a run is a function of its history. A symbol is refused if its name stands for
another kind, or if it is not the first strong definition of its name, and the record of every name
is what the accepted symbols of that name come to. -/
theorem addAll_resolves (symbols : List Symbol) (distinct : DistinctDefinitions symbols) :
    (∀ earlier symbol later, symbols = earlier ++ symbol :: later → ∀ error,
      (addAll earlier).add symbol = .error error ↔
        Refused (historyOf earlier symbol.name) symbol error) ∧
    ∀ name, (addAll symbols).record? name = resolution (historyOf symbols name) := by
  refine ⟨?_, record?_addAll symbols distinct⟩
  rintro earlier symbol later rfl error
  rw [List.append_cons] at distinct
  have here : DistinctDefinitions (earlier ++ [symbol]) := distinct.left
  rw [add_eq_error_iff (wellFormed_addAll earlier), record?_addAll earlier here.left]
  exact settle_eq_error_iff_refused (ne_target_of_distinct here)

/-- A weak and a strong reference to a name, a weak definition and a strong one. -/
def contested : List Symbol :=
  [⟨"f", .weak, "a.o", .function (.undefined 0 0)⟩,
    ⟨"f", .empty, "b.o", .function (.undefined 1 0)⟩,
    ⟨"f", .weak, "c.o", .function (.defined 2 0)⟩,
    ⟨"f", .empty, "d.o", .function (.defined 3 0)⟩]

/-- Another strong definition of the same name. -/
def contender : Symbol := ⟨"f", .empty, "e.o", .function (.defined 4 0)⟩

/-- The second strong definition is refused, and the first one stands for the name. -/
theorem addAll_contested :
    DistinctDefinitions (contested ++ [contender]) ∧
      (addAll contested).add contender = .error (.symbolConflict "f" "d.o" "e.o") ∧
      (addAll (contested ++ [contender])).record? "f" =
        some ⟨"f", .empty, "d.o", .function (.defined 3 0)⟩ := by
  have distinct : DistinctDefinitions (contested ++ [contender]) := by decide
  obtain ⟨refusals, records⟩ := addAll_resolves (contested ++ [contender]) distinct
  refine ⟨distinct, ?_, ?_⟩
  · have stands : resolution (historyOf contested "f") =
        some ⟨"f", .empty, "d.o", .function (.defined 3 0)⟩ := by decide +kernel
    have first : (historyOf contested "f").find? (·.isStrongDefinition) =
        some ⟨"f", .empty, "d.o", .function (.defined 3 0)⟩ := by decide +kernel
    have strong : contender.isStrongDefinition = true := rfl
    have refused : Refused (historyOf contested "f") contender _ :=
      .symbolConflict stands rfl strong first
    rw [refusals contested contender [] rfl]
    exact refused
  · rw [records]
    decide +kernel

end SymbolTable

end StaticLink
