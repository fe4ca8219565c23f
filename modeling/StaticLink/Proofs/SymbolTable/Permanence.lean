import StaticLink.ObjectModule.Loading
import StaticLink.Proofs.SymbolTable.Registration

/-!
# What registration keeps

The symbol table only ever moves forward. `SymbolTable.WellFormed` is the invariant of a single
table and `SymbolTable.Extends` the relation between a table and any later one. Each is proved for
one registration first and then for runs of any length, failing calls included.
-/

namespace StaticLink

/-- What can become of a record when more symbols are registered. -/
structure Symbol.Becomes (old new : Symbol) : Prop where
  name : new.name = old.name
  kind : new.target.kind = old.target.kind
  /-- A definition never turns into a reference. -/
  definition : old.isDefinition = true → new.isDefinition = true
  /-- A strong definition keeps every field. -/
  strong : old.isStrongDefinition = true → new = old

namespace Symbol.Becomes

theorem refl (symbol : Symbol) : symbol.Becomes symbol := ⟨rfl, rfl, id, fun _ => rfl⟩

theorem trans {first second third : Symbol} (before : first.Becomes second)
    (after : second.Becomes third) : first.Becomes third where
  name := after.name.trans before.name
  kind := after.kind.trans before.kind
  definition := fun h => after.definition (before.definition h)
  strong := by
    intro h
    have same := before.strong h
    subst same
    exact after.strong h

/-- A weak reference that loses its flag. -/
theorem strengthened (symbol : Symbol) (undefined : symbol.isUndefined = true) :
    symbol.Becomes symbol.strengthened where
  name := rfl
  kind := rfl
  definition := id
  strong := by simp [isStrongDefinition, isDefinition, undefined]

/-- A record that another symbol of its name replaces. -/
theorem replaced {existing incoming : Symbol} (name : incoming.name = existing.name)
    (merged : existing.merge incoming = .ok .replace) : existing.Becomes incoming := by
  obtain ⟨kinds, defined, weaker⟩ := merge_eq_replace_iff.1 merged
  refine ⟨name, kinds.symm, fun _ => by simp [isDefinition, defined], ?_⟩
  -- A strong definition is neither undefined nor weak, and so is not replaced.
  intro strong
  simp only [isStrongDefinition, isDefinition, Bool.and_eq_true, Bool.not_eq_true'] at strong
  rcases weaker with undefined | ⟨-, -, -, weak⟩
  · simp [undefined] at strong
  · simp [weak] at strong

end Symbol.Becomes

namespace SymbolTable

variable {table next : SymbolTable} {symbol : Symbol} {id : SymbolId}

/-! ## The invariant of a table -/

/-- The names lead to records of those names, and the lists of synthesized symbols hold what they
are for. -/
structure WellFormed (table : SymbolTable) : Prop where
  names_nodup : (table.names.toList.map (·.1)).Nodup
  named : ∀ name id, table.lookup name = some id →
    ∃ record, table.records[id]? = some record ∧ record.name = name
  synthetic_nodup : ∀ kind, (table.synthetic kind).Nodup
  mem_synthetic : ∀ kind id, id ∈ table.synthetic kind ↔ ∃ record,
    table.records[id]? = some record ∧ record.target.isSynthesized = true ∧
      record.target.kind = kind

theorem wellFormed_empty : empty.WellFormed where
  names_nodup := List.nodup_nil
  named := by simp [lookup, empty]
  synthetic_nodup := by intro kind; cases kind <;> exact List.nodup_nil
  mem_synthetic := by intro kind id; cases kind <;> simp [synthetic, empty]

/-- Two names never share an id. -/
theorem WellFormed.lookup_injective (wf : table.WellFormed) {first second : String}
    (one : table.lookup first = some id) (other : table.lookup second = some id) :
    first = second := by
  obtain ⟨record, found, rfl⟩ := wf.named first id one
  obtain ⟨record', found', rfl⟩ := wf.named second id other
  -- Both names are the name of the one record at the id.
  rw [found] at found'
  exact congrArg Symbol.name (Option.some.inj found')

theorem lt_size_of_getElem? {record : Symbol} (found : table.records[id]? = some record) :
    id < table.records.size := (Array.getElem?_eq_some_iff.1 found).1

/-- A record stays where it is when another one is added at the end. -/
theorem getElem?_push_of_some {records : Array Symbol} {record : Symbol} (symbol : Symbol)
    (found : records[id]? = some record) : (records.push symbol)[id]? = some record := by
  have small : id < records.size := (Array.getElem?_eq_some_iff.1 found).1
  rw [Array.getElem?_push, if_neg (Nat.ne_of_lt small), found]

theorem WellFormed.lookup_lt (wf : table.WellFormed) {name : String}
    (known : table.lookup name = some id) : id < table.records.size := by
  obtain ⟨record, found, -⟩ := wf.named name id known
  exact lt_size_of_getElem? found

/-! ## The records and names after one registration -/

@[simp] theorem lookup_resolve (table : SymbolTable) (id : SymbolId) (symbol : Symbol)
    (name : String) : (table.resolve id symbol).lookup name = table.lookup name := by
  simp [lookup, resolve, replace]

@[simp] theorem names_resolve (table : SymbolTable) (id : SymbolId) (symbol : Symbol) :
    (table.resolve id symbol).names = table.names := by
  simp [resolve, replace]

@[simp] theorem records_resolve (table : SymbolTable) (id : SymbolId) (symbol : Symbol) :
    (table.resolve id symbol).records = table.records.setIfInBounds id symbol := by
  simp [resolve, replace]

@[simp] theorem records_addLocal (table : SymbolTable) (symbol : Symbol) :
    (table.addLocal symbol).2.records = table.records.push symbol := by
  simp [addLocal, allocate]

@[simp] theorem names_addLocal (table : SymbolTable) (symbol : Symbol) :
    (table.addLocal symbol).2.names = table.names := by
  simp [addLocal, allocate]

theorem lookup_addLocal (table : SymbolTable) (symbol : Symbol) (name : String) :
    (table.addLocal symbol).2.lookup name = table.lookup name := by
  simp [lookup]

@[simp] theorem records_introduce (table : SymbolTable) (symbol : Symbol) :
    (table.introduce symbol).records = table.records.push symbol := by
  simp [introduce, allocate]

@[simp] theorem names_introduce (table : SymbolTable) (symbol : Symbol) :
    (table.introduce symbol).names = table.names.push (symbol.name, table.records.size) := rfl

theorem lookup_introduce (table : SymbolTable) (symbol : Symbol) (name : String) :
    (table.introduce symbol).lookup name =
      (table.lookup name).or (if symbol.name = name then some table.records.size else none) := by
  unfold lookup
  rw [names_introduce, Array.find?_push, Option.map_or]
  congr 1
  by_cases same : symbol.name = name <;> simp [same]

/-- The synthesized symbols after a record is added at the end. -/
theorem mem_synthetic_allocate (wf : table.WellFormed) (symbol : Symbol) (kind : Target.Kind)
    (other : SymbolId) :
    other ∈ (table.allocate symbol).2.synthetic kind ↔ ∃ record,
      (table.records.push symbol)[other]? = some record ∧ record.target.isSynthesized = true ∧
        record.target.kind = kind := by
  -- The lists still speak of the old records, and the new id is on none of them.
  have same : ∀ kind, ({ table with records := table.records.push symbol } :
      SymbolTable).synthetic kind = table.synthetic kind := by
    intro kind
    cases kind <;> rfl
  unfold allocate
  rw [mem_synthetic_listSynthetic (by intro kind; rw [same]; exact wf.synthetic_nodup kind), same,
    wf.mem_synthetic, Array.getElem?_push]
  by_cases last : other = table.records.size <;> simp [last]

theorem nodup_synthetic_allocate (wf : table.WellFormed) (symbol : Symbol) (kind : Target.Kind) :
    ((table.allocate symbol).2.synthetic kind).Nodup := by
  refine nodup_synthetic_listSynthetic _ ?_ kind
  intro kind
  cases kind
  · exact wf.synthetic_nodup .function
  · exact wf.synthetic_nodup .global
  · exact wf.synthetic_nodup .data

/-! ## One registration keeps the invariant -/

theorem WellFormed.addLocal (wf : table.WellFormed) (symbol : Symbol) :
    (table.addLocal symbol).2.WellFormed where
  names_nodup := by
    rw [names_addLocal]
    exact wf.names_nodup
  named := by
    intro name id known
    rw [lookup_addLocal] at known
    obtain ⟨record, found, same⟩ := wf.named name id known
    rw [records_addLocal]
    exact ⟨record, getElem?_push_of_some symbol found, same⟩
  synthetic_nodup := nodup_synthetic_allocate wf symbol
  mem_synthetic := by
    intro kind id
    rw [records_addLocal]
    exact mem_synthetic_allocate wf symbol kind id

/-- A name without a record does not stand in the list of names. -/
theorem not_mem_names_of_lookup {name : String} (new : table.lookup name = none) :
    name ∉ table.names.toList.map (·.1) := by
  intro listed
  obtain ⟨entry, member, same⟩ := List.mem_map.1 listed
  rw [lookup, Option.map_eq_none_iff, Array.find?_eq_none] at new
  exact new entry (Array.mem_toList_iff.1 member) (by simpa using same)

theorem WellFormed.introduce (wf : table.WellFormed)
    (new : table.lookup symbol.name = none) : (table.introduce symbol).WellFormed where
  names_nodup := by
    rw [names_introduce, Array.toList_push, List.map_append]
    refine wf.names_nodup.append (List.nodup_singleton _) ?_
    intro name listed single
    obtain rfl := List.mem_singleton.1 single
    exact not_mem_names_of_lookup new listed
  named := by
    intro name id known
    rw [lookup_introduce, Option.or_eq_some_iff] at known
    rw [records_introduce]
    rcases known with known | ⟨-, last⟩
    · obtain ⟨record, found, same⟩ := wf.named name id known
      exact ⟨record, getElem?_push_of_some symbol found, same⟩
    · -- The new name leads to the record at the end.
      split at last
      · next same =>
        obtain rfl := Option.some.inj last
        exact ⟨symbol, Array.getElem?_push_size, same⟩
      · cases last
  synthetic_nodup := by
    intro kind
    have nodup := nodup_synthetic_allocate wf symbol kind
    cases kind <;> exact nodup
  mem_synthetic := by
    intro kind id
    have listed := mem_synthetic_allocate wf symbol kind id
    rw [records_introduce]
    cases kind <;> exact listed

/-- Another record under the same name, with its place on the lists brought up to date. -/
theorem WellFormed.resolve (wf : table.WellFormed) {existing : Symbol}
    (found : table.records[id]? = some existing) (name : symbol.name = existing.name) :
    (table.resolve id symbol).WellFormed where
  names_nodup := by
    rw [names_resolve]
    exact wf.names_nodup
  named := by
    intro other place known
    rw [lookup_resolve] at known
    obtain ⟨record, at_place, same⟩ := wf.named other place known
    rw [records_resolve, Array.getElem?_setIfInBounds]
    -- The one name that leads to the new record is its own.
    by_cases here : id = place
    · subst here
      rw [found] at at_place
      obtain rfl := Option.some.inj at_place
      exact ⟨symbol, by simp [lt_size_of_getElem? found], name.trans same⟩
    · exact ⟨record, by simpa [here] using at_place, same⟩
  synthetic_nodup := by
    refine nodup_synthetic_listSynthetic _ ?_
    intro kind
    rw [synthetic_replace]
    exact wf.synthetic_nodup kind
  mem_synthetic := by
    intro kind other
    rw [SymbolTable.resolve, mem_synthetic_listSynthetic (by simpa using wf.synthetic_nodup),
      records_listSynthetic, synthetic_replace, wf.mem_synthetic, SymbolTable.replace,
      Array.getElem?_setIfInBounds]
    by_cases here : other = id
    · simp [here, lt_size_of_getElem? found]
    · simp [here, Ne.symm here]

/-- A record that only loses its weak flag stays on the lists where it is. -/
theorem WellFormed.strengthen (wf : table.WellFormed) {existing : Symbol}
    (found : table.records[id]? = some existing) :
    (table.replace id existing.strengthened).WellFormed where
  names_nodup := wf.names_nodup
  named := by
    intro other place known
    obtain ⟨record, at_place, same⟩ := wf.named other place known
    rw [SymbolTable.replace, Array.getElem?_setIfInBounds]
    by_cases here : id = place
    · subst here
      rw [found] at at_place
      obtain rfl := Option.some.inj at_place
      exact ⟨existing.strengthened, by simp [lt_size_of_getElem? found], same⟩
    · exact ⟨record, by simpa [here] using at_place, same⟩
  synthetic_nodup := by simpa using wf.synthetic_nodup
  mem_synthetic := by
    intro kind other
    rw [synthetic_replace, wf.mem_synthetic, SymbolTable.replace, Array.getElem?_setIfInBounds]
    by_cases here : id = other
    · subst here
      rw [if_pos rfl, if_pos (lt_size_of_getElem? found), found]
      simp
    · rw [if_neg here]

/-- The symbol that a name leads to has that name. -/
theorem WellFormed.name_eq (wf : table.WellFormed) {name : String} {record : Symbol}
    (known : table.lookup name = some id) (found : table.records[id]? = some record) :
    record.name = name := by
  obtain ⟨record', found', same⟩ := wf.named name id known
  rw [found] at found'
  rwa [Option.some.inj found']

theorem WellFormed.of_adds (wf : table.WellFormed) (adds : Adds table symbol id next) :
    next.WellFormed := by
  cases adds with
  | introduced new => exact wf.introduce new
  | kept => exact wf
  | strengthened _ found _ => exact wf.strengthen found
  | replaced known found _ => exact wf.resolve found (wf.name_eq known found).symm

/-! ## What later tables keep -/

/-- The relation between a table and those that come of it by more registrations. -/
structure Extends (old new : SymbolTable) : Prop where
  lookup : ∀ name id, old.lookup name = some id → new.lookup name = some id
  record : ∀ (id : SymbolId) (before : Symbol), old.records[id]? = some before →
    ∃ now, new.records[id]? = some now ∧ before.Becomes now
  /-- No name comes to lead to a record that is already there. -/
  unreached : ∀ name id, id < old.records.size → new.lookup name = some id →
    old.lookup name = some id

theorem Extends.refl (table : SymbolTable) : table.Extends table where
  lookup := fun _ _ known => known
  record := fun _ before found => ⟨before, found, .refl before⟩
  unreached := fun _ _ _ known => known

theorem Extends.size_le {old new : SymbolTable} (later : old.Extends new) :
    old.records.size ≤ new.records.size := by
  -- A record at the end of a shorter table would have nothing to become.
  by_contra shorter
  have inside : new.records.size < old.records.size := by omega
  obtain ⟨now, found, -⟩ := later.record new.records.size _ (Array.getElem?_eq_getElem inside)
  exact Nat.lt_irrefl _ (lt_size_of_getElem? found)

theorem Extends.trans {first second third : SymbolTable} (before : first.Extends second)
    (after : second.Extends third) : first.Extends third where
  lookup := fun name id known => after.lookup name id (before.lookup name id known)
  record := by
    intro id record found
    obtain ⟨middle, found', becomes⟩ := before.record id record found
    obtain ⟨last, found'', becomes'⟩ := after.record id middle found'
    exact ⟨last, found'', becomes.trans becomes'⟩
  unreached := by
    intro name id small known
    have small' := Nat.lt_of_lt_of_le small before.size_le
    exact before.unreached name id small (after.unreached name id small' known)

/-- A record at the end changes none of those before it. -/
theorem Extends.addLocal (table : SymbolTable) (symbol : Symbol) :
    table.Extends (table.addLocal symbol).2 where
  lookup := by simp [lookup_addLocal]
  record := by
    intro id record found
    rw [records_addLocal]
    exact ⟨record, getElem?_push_of_some symbol found, .refl record⟩
  unreached := by simp [lookup_addLocal]

theorem Extends.introduce (table : SymbolTable) (symbol : Symbol) :
    table.Extends (table.introduce symbol) where
  lookup := by
    intro name id known
    rw [lookup_introduce, known]
    rfl
  record := by
    intro id record found
    rw [records_introduce]
    exact ⟨record, getElem?_push_of_some symbol found, .refl record⟩
  unreached := by
    intro name id small known
    rw [lookup_introduce, Option.or_eq_some_iff] at known
    rcases known with known | ⟨-, last⟩
    · exact known
    · -- The new record is not among those that were there.
      split at last
      · obtain rfl := Option.some.inj last
        exact absurd small (Nat.lt_irrefl _)
      · cases last

/-- One record becomes another, and no name changes. -/
theorem Extends.of_set {old new : SymbolTable} {before now : Symbol}
    (names : new.names = old.names) (records : new.records = old.records.setIfInBounds id now)
    (found : old.records[id]? = some before) (becomes : before.Becomes now) :
    old.Extends new where
  lookup := by simp [SymbolTable.lookup, names]
  record := by
    intro other record found'
    rw [records, Array.getElem?_setIfInBounds]
    by_cases here : id = other
    · subst here
      rw [found] at found'
      obtain rfl := Option.some.inj found'
      exact ⟨now, by simp [lt_size_of_getElem? found], becomes⟩
    · exact ⟨record, by simpa [here] using found', .refl record⟩
  unreached := by simp [SymbolTable.lookup, names]

theorem Extends.of_adds (wf : table.WellFormed) (adds : Adds table symbol id next) :
    table.Extends next := by
  cases adds with
  | introduced => exact .introduce table symbol
  | kept => exact .refl table
  | strengthened _ found merged =>
    obtain ⟨-, -, undefined, -, -⟩ := Symbol.merge_eq_strengthen_iff.1 merged
    exact .of_set rfl rfl found (.strengthened _ undefined)
  | replaced known found merged =>
    have name := (wf.name_eq known found).symm
    exact .of_set (names_resolve ..) (records_resolve ..) found (.replaced name merged)

/-! ## Runs -/

theorem after_preserves (wf : table.WellFormed) (call : Registration) :
    (table.after call).WellFormed ∧ table.Extends (table.after call) := by
  rcases after_cases table call with same | ⟨symbol, id, next, -, adds, same⟩ | ⟨symbol, -, same⟩
  · rw [same]
    exact ⟨wf, .refl table⟩
  · rw [same]
    exact ⟨wf.of_adds adds, .of_adds wf adds⟩
  · rw [same]
    exact ⟨wf.addLocal symbol, .addLocal table symbol⟩

theorem run_preserves (wf : table.WellFormed) (calls : List Registration) :
    (table.run calls).WellFormed ∧ table.Extends (table.run calls) := by
  induction calls generalizing table with
  | nil => exact ⟨wf, .refl table⟩
  | cons call rest ih =>
    obtain ⟨wf', step⟩ := after_preserves wf call
    obtain ⟨wf'', rest⟩ := ih wf'
    exact ⟨wf'', step.trans rest⟩

/-- Every table that some registrations lead to is well-formed. -/
theorem wellFormed_run (calls : List Registration) : (empty.run calls).WellFormed :=
  (run_preserves wellFormed_empty calls).1

/-- The record of a local symbol has the next free id, and no name ever leads to it. -/
theorem lookup_ne_of_addLocal (wf : table.WellFormed) (symbol : Symbol)
    (later : List Registration) (name : String) :
    ((table.addLocal symbol).2.run later).lookup name ≠ some (table.addLocal symbol).1 := by
  intro known
  have wf' := wf.addLocal symbol
  have small : (table.addLocal symbol).1 < (table.addLocal symbol).2.records.size := by
    simp [SymbolTable.addLocal, allocate]
  have before := (run_preserves wf' later).2.unreached name _ small known
  rw [lookup_addLocal] at before
  exact Nat.lt_irrefl _ (wf.lookup_lt before)

end SymbolTable

/-- A registration that fails while an input is loaded leaves everything as it was. -/
theorem Loader.register_eq_error {symbol : Symbol} {loading rest : Loading} {error : Error}
    (h : Loader.register symbol loading = .error error rest) : rest = loading := by
  change (ite (symbol.isLocal = true) _ _ : Loader SymbolId) loading = _ at h
  split at h
  · cases h
  · rcases outcome : loading.symbols.add symbol with cause | ⟨id, symbols⟩
    · rw [outcome] at h
      cases h
      rfl
    · rw [outcome] at h
      cases h

namespace SymbolTable

/-- The symbol table only moves forward, whatever is registered and in whatever order. Between any
two moments of a run of registrations names keep their ids, and records their names and kinds;
definitions stay definitions, and strong ones stay as they are. At any moment different names have
different ids, and the lists of synthesized symbols hold what they are for, each symbol once. No
name ever leads to a symbol that is private to its input. What fails changes nothing. -/
theorem run_moves_forward (earlier later : List Registration) :
    let before := empty.run earlier
    let now := empty.run (earlier ++ later)
    before.Extends now ∧ now.WellFormed ∧
      (∀ first second id, now.lookup first = some id → now.lookup second = some id →
        first = second) ∧
      (∀ symbol name, ((before.addLocal symbol).2.run later).lookup name ≠
        some (before.addLocal symbol).1) ∧
      (∀ symbol error, before.add symbol = .error error → before.after (.shared symbol) = before) ∧
      (∀ symbol loading error rest, Loader.register symbol loading = .error error rest →
        rest = loading) := by
  intro before now
  have wf : before.WellFormed := wellFormed_run earlier
  have wf' : now.WellFormed := wellFormed_run (earlier ++ later)
  have split : now = before.run later := run_append empty earlier later
  refine ⟨?_, wf', fun _ _ _ => wf'.lookup_injective, ?_, ?_,
    fun _ _ _ _ => Loader.register_eq_error⟩
  · rw [split]
    exact (run_preserves wf later).2
  · exact fun symbol name => lookup_ne_of_addLocal wf symbol later name
  · intro symbol error refused
    simp only [after, register, refused]

end SymbolTable

end StaticLink
