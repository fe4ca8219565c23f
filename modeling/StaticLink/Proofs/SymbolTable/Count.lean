import Mathlib.Data.List.Perm.Subperm
import StaticLink.Imports
import StaticLink.Proofs.SymbolTable.Completion

/-!
# How many symbols there are

Every registration gives a table one record more at most, and those of the linker's own functions
and globals are few: a stub takes the place of a record that is already there.

* `SymbolTable.idsOf`: the symbols of one kind.
* `SymbolTable.length_idsOf_register`: what a registration adds to them.
* `SymbolTable.length_idsOf_complete`: what the linker adds to them.
* `SymbolTable.strong_add_synthetic_le`: the symbols of a kind that are imported or supplied are no
  more than there are.
-/

namespace StaticLink.SymbolTable

variable {table next : SymbolTable} {symbol : Symbol} {id : SymbolId} {kind : Target.Kind}

/-- The symbols of this kind, local ones included. -/
def idsOf (table : SymbolTable) (kind : Target.Kind) : List SymbolId :=
  (List.range table.records.size).filter fun id =>
    (table.records[id]?).any fun record => record.target.kind == kind

theorem mem_idsOf : id ∈ table.idsOf kind ↔ table.Registered id kind := by
  unfold idsOf Registered
  rw [List.mem_filter, List.mem_range, Option.any_eq_true]
  constructor
  · rintro ⟨-, record, found, same⟩
    exact ⟨record, found, beq_iff_eq.1 same⟩
  · rintro ⟨record, found, same⟩
    exact ⟨lt_size_of_getElem? found, record, found, beq_iff_eq.2 same⟩

/-- Different symbols of one kind are no more than there are. -/
theorem length_le_idsOf {ids : List SymbolId} (nodup : ids.Nodup)
    (all : ∀ id ∈ ids, table.Registered id kind) : ids.length ≤ (table.idsOf kind).length :=
  (nodup.subperm fun id member => mem_idsOf.2 (all id member)).length_le

/-- A record at the end is one symbol more of its kind. -/
theorem length_idsOf_push (records : next.records = table.records.push symbol) :
    (next.idsOf kind).length =
      (table.idsOf kind).length + if symbol.target.kind = kind then 1 else 0 := by
  unfold idsOf
  rw [records, Array.size_push, List.range_succ, List.filter_append, List.length_append]
  congr 1
  · refine congrArg List.length (List.filter_congr fun id member => ?_)
    have small := List.mem_range.1 member
    rw [Array.getElem?_push, if_neg (Nat.ne_of_lt small)]
  · rw [List.filter_singleton, Array.getElem?_push_size]
    by_cases same : symbol.target.kind = kind
    · simp [same]
    · simp [same, beq_eq_false_iff_ne.2 same]

/-- A record of the same kind in the place of another one changes nothing. -/
theorem idsOf_set {existing : Symbol} (found : table.records[id]? = some existing)
    (records : next.records = table.records.setIfInBounds id symbol)
    (same : existing.target.kind = symbol.target.kind) : next.idsOf kind = table.idsOf kind := by
  unfold idsOf
  rw [records, Array.size_setIfInBounds]
  refine List.filter_congr fun place member => ?_
  rw [Array.getElem?_setIfInBounds]
  split
  · next here =>
    subst here
    rw [if_pos (lt_size_of_getElem? found), found, Option.any_some, Option.any_some, same]
  · rfl

/-- A symbol that is accepted is one symbol more of its kind at most, and none if its name is
known. -/
theorem length_idsOf_adds (adds : Adds table symbol id next) :
    (next.idsOf kind).length ≤ (table.idsOf kind).length +
      if table.lookup symbol.name = none ∧ symbol.target.kind = kind then 1 else 0 := by
  cases adds with
  | introduced new =>
    rw [length_idsOf_push (records_introduce table symbol)]
    simp [new]
  | kept => exact Nat.le_add_right _ _
  | @strengthened id existing known found merged =>
    have records : (table.replace id existing.strengthened).records =
        table.records.setIfInBounds id existing.strengthened := rfl
    rw [idsOf_set found records rfl]
    exact Nat.le_add_right _ _
  | replaced known found merged =>
    rw [idsOf_set found (records_resolve ..) (Symbol.kind_eq_of_merge_eq_ok merged)]
    exact Nat.le_add_right _ _

/-- A registration gives one symbol more of its kind at most. -/
theorem length_idsOf_register (kind : Target.Kind) {call : Registration}
    (h : table.register call = .ok (id, next)) :
    (next.idsOf kind).length ≤ (table.idsOf kind).length +
      if call.symbol.target.kind = kind then 1 else 0 := by
  cases call with
  | own symbol =>
    cases h
    exact Nat.le_of_eq (length_idsOf_push (records_addLocal table symbol))
  | shared symbol =>
    refine Nat.le_trans (length_idsOf_adds (adds_of_add_eq_ok h)) (Nat.add_le_add_left ?_ _)
    split
    · next new =>
      have same : (Registration.shared symbol).symbol.target.kind = kind := new.2
      exact Nat.le_of_eq (if_pos same).symm
    · exact Nat.zero_le _

/-! ## Symbols by name -/

theorem WellFormed.lookup_of_mem (wf : table.WellFormed) {name : String}
    (member : (name, id) ∈ table.names) : table.lookup name = some id := by
  rcases first : table.names.find? (·.1 == name) with _ | found
  · have none := Array.find?_eq_none.1 first (name, id) member
    simp at none
  · unfold lookup
    -- Names are different, so that the first entry of a name is the only one.
    have name' : found.1 = name := by simpa using Array.find?_some first
    have other := Array.mem_of_find?_eq_some first
    have nodup := wf.names_nodup
    have same : found = (name, id) :=
      List.inj_on_of_nodup_map nodup other.val member.val name'
    rw [first, same, Option.map_some]

/-- A non-local symbol is the one that its name leads to. -/
theorem WellFormed.lookup_of_mem_symbols (wf : table.WellFormed) {record : Symbol}
    (member : (id, record) ∈ table.symbols) :
    table.lookup record.name = some id ∧ table.records[id]? = some record := by
  obtain ⟨⟨name, place⟩, listed, here⟩ := List.mem_filterMap.1 member
  obtain ⟨found, stands, same⟩ := Option.map_eq_some_iff.1 here
  cases same
  have known := wf.lookup_of_mem (Array.mem_toList_iff.1 listed)
  obtain ⟨again, stands', rfl⟩ := wf.named name id known
  rw [stands] at stands'
  cases stands'
  exact ⟨known, stands⟩

/-- Non-local symbols are listed once. -/
theorem WellFormed.nodup_symbols (wf : table.WellFormed) : (table.symbols.map (·.1)).Nodup := by
  have ids : (table.names.toList.map (·.2)).Nodup := by
    refine List.Nodup.map_on ?_ wf.names_nodup.of_map
    intro first one second two same
    have known := wf.lookup_of_mem (Array.mem_toList_iff.1 one)
    have known' := wf.lookup_of_mem (Array.mem_toList_iff.1 two)
    rw [← same] at known'
    exact Prod.ext (wf.lookup_injective known known') same
  -- What is listed are the ids of the names, less those without a record.
  refine ids.sublist ?_
  unfold symbols
  generalize table.names.toList = names
  induction names with
  | nil => exact .slnil
  | cons name rest ih =>
    rcases found : table.records[name.2]? with _ | record
    · simpa [found] using ih.cons name.2
    · simpa [found] using ih.cons_cons name.2

/-! ## Imports and what the linker supplies -/

/-- Each symbol of a kind is an import, something that the linker supplies, or neither. -/
theorem strong_add_synthetic_le {β : Type} (kind : Target.Kind) (pick : Symbol → Option β)
    (wf : table.WellFormed)
    (undefined : ∀ symbol, (pick symbol).isSome → symbol.target.kind = kind ∧
      symbol.target.isSynthesized = false) :
    ((table.symbols.filter fun (_, symbol) => !symbol.isWeak).filterMap fun (_, symbol) =>
        pick symbol).length + (table.synthetic kind).length ≤ (table.idsOf kind).length := by
  let picked := ((table.symbols.filter fun (_, symbol) => !symbol.isWeak).filter fun (_, symbol) =>
    (pick symbol).isSome).map (·.1)
  have size : ((table.symbols.filter fun (_, symbol) => !symbol.isWeak).filterMap
      fun (_, symbol) => pick symbol).length = picked.length := by
    rw [List.length_filterMap_eq_countP, List.countP_eq_length_filter, List.length_map]
  have stands : ∀ id ∈ picked, ∃ record, table.records[id]? = some record ∧
      record.target.kind = kind ∧ record.target.isSynthesized = false := by
    intro id member
    obtain ⟨⟨id, record⟩, listed, rfl⟩ := List.mem_map.1 member
    obtain ⟨strong, some⟩ := List.mem_filter.1 listed
    exact ⟨record, (wf.lookup_of_mem_symbols (List.mem_of_mem_filter strong)).2,
      undefined record some⟩
  have nodup : (picked ++ table.synthetic kind).Nodup := by
    refine List.nodup_append.2 ⟨?_, wf.synthetic_nodup kind, ?_⟩
    · exact wf.nodup_symbols.sublist ((List.filter_sublist.trans List.filter_sublist).map _)
    · rintro id one _ two rfl
      obtain ⟨record, here, -, not⟩ := stands id one
      obtain ⟨record', there, supplied, -⟩ := (wf.mem_synthetic kind id).1 two
      rw [here] at there
      cases there
      rw [not] at supplied
      cases supplied
  rw [size, ← List.length_append]
  refine length_le_idsOf nodup ?_
  intro id member
  rcases List.mem_append.1 member with one | two
  · obtain ⟨record, here, same, -⟩ := stands id one
    exact ⟨record, here, same⟩
  · obtain ⟨record, here, -, same⟩ := (wf.mem_synthetic kind id).1 two
    exact ⟨record, here, same⟩

theorem strongFunctions_add_synthetic_le (wf : table.WellFormed) :
    table.strongFunctions.length + table.syntheticFunctions.length ≤
      (table.idsOf .function).length := by
  refine strong_add_synthetic_le .function Symbol.functionImport? wf ?_
  intro symbol some
  unfold Symbol.functionImport? at some
  split at some
  · next target =>
    rw [target]
    exact ⟨rfl, rfl⟩
  · cases some

theorem strongGlobals_add_synthetic_le (wf : table.WellFormed) :
    table.strongGlobals.length + table.syntheticGlobals.length ≤
      (table.idsOf .global).length := by
  refine strong_add_synthetic_le .global Symbol.globalImport? wf ?_
  intro symbol some
  unfold Symbol.globalImport? at some
  split at some
  · next target =>
    rw [target]
    exact ⟨rfl, rfl⟩
  · cases some

/-! ## What the linker adds -/

/-- The records of no other kind become more when the linker supplies a symbol. -/
theorem length_idsOf_supply (kind : Target.Kind) {name : String} {flags : SymbolFlags}
    {target : Target}
    (h : table.supply name flags target = .ok next) :
    (next.idsOf kind).length ≤ (table.idsOf kind).length +
      if table.lookup name = none ∧ target.kind = kind then 1 else 0 := by
  obtain ⟨⟨id, added⟩, one, done⟩ := bind_eq_ok.1 h
  cases done
  have few := @length_idsOf_adds _ _ _ _ kind (adds_of_add_eq_ok one)
  dsimp only at few
  exact few

/-- Symbols of names that are known are no more symbols. -/
theorem length_idsOf_stubs {items : List (String × ModuleId × UInt32)} (wf : table.WellFormed)
    (known : ∀ item ∈ items, table.lookup item.1 ≠ none)
    (h : items.foldlM (fun table (name, owner, position) =>
      table.supply name .weak (.function (.synthesized (.trapStub owner position)))) table =
        .ok next) :
    (next.idsOf kind).length ≤ (table.idsOf kind).length := by
  induction items generalizing table with
  | nil =>
    cases h
    exact Nat.le_refl _
  | cons item rest ih =>
    rw [List.foldlM_cons] at h
    obtain ⟨middle, one, h⟩ := bind_eq_ok.1 h
    obtain ⟨wf', later⟩ := (reached_of_supply one rfl).later wf
    have first := length_idsOf_supply kind one
    rw [if_neg fun new => known item List.mem_cons_self new.1] at first
    refine Nat.le_trans (ih wf' ?_ h) first
    -- A name that is known stays so.
    intro other member none
    rcases lookup : table.lookup other.1 with _ | id
    · exact known other (List.mem_cons_of_mem _ member) lookup
    · rw [later.lookup _ id lookup] at none
      cases none

/-- A stub takes the place of a record, so that no symbol is added. -/
theorem length_idsOf_supplyStubs (kind : Target.Kind) (wf : table.WellFormed)
    (h : table.supplyStubs = .ok next) :
    (next.idsOf kind).length ≤ (table.idsOf kind).length := by
  refine length_idsOf_stubs wf ?_ h
  intro item member
  obtain ⟨⟨id, record⟩, listed, here⟩ := List.mem_filterMap.1 member
  obtain ⟨place, -, rfl⟩ := Option.map_eq_some_iff.1 here
  rw [(wf.lookup_of_mem_symbols (List.mem_of_mem_filter listed)).1]
  simp

theorem length_idsOf_supplyConstructorCaller (kind : Target.Kind) {modules : List ObjectModule}
    (h : table.supplyConstructorCaller modules = .ok next) :
    (next.idsOf kind).length ≤ (table.idsOf kind).length +
      if kind = .function then 1 else 0 := by
  obtain ⟨functions, -, h⟩ := bind_eq_ok.1 h
  dsimp only at h
  split at h
  · cases h
    exact Nat.le_add_right _ _
  · refine Nat.le_trans (length_idsOf_supply kind h) (Nat.add_le_add_left ?_ _)
    split
    · next new => exact Nat.le_of_eq (if_pos new.2.symm).symm
    · exact Nat.zero_le _

theorem length_idsOf_supplyData {segments : List OutputSegment}
    (h : table.supplyData segments = .ok next) (other : kind ≠ .data) :
    (next.idsOf kind).length ≤ (table.idsOf kind).length := by
  have step {before after : SymbolTable} {name : String} {address : Nat}
      (one : before.supplyAddress name address = .ok after) :
      (after.idsOf kind).length ≤ (before.idsOf kind).length := by
    have added := length_idsOf_supply kind one
    rwa [if_neg fun data => other data.2.symm] at added
  obtain ⟨marked, markers, handle⟩ := bind_eq_ok.1 h
  refine Nat.le_trans (step handle) ?_
  refine foldlM_keeps (fun last => (last.idsOf kind).length ≤ (table.idsOf kind).length) markers
    ?_ (Nat.le_refl _)
  intro before segment after marks few
  obtain ⟨started, start, stop⟩ := bind_eq_ok.1 marks
  exact Nat.le_trans (step stop) (Nat.le_trans (step start) few)

/-- The linker adds one function and one global at most. -/
theorem length_idsOf_complete {modules : List ObjectModule} {layout : DataLayout} {stackTop : Nat}
    (wf : table.WellFormed) (h : table.complete modules layout stackTop = .ok next)
    (other : kind ≠ .data) : (next.idsOf kind).length ≤ (table.idsOf kind).length + 1 := by
  obtain ⟨called, stubbed, marked, caller, stubs, data, globals, -⟩ := steps_of_complete h
  have first := length_idsOf_supplyConstructorCaller kind caller
  have second := length_idsOf_supplyStubs kind
    ((reached_of_supplyConstructorCaller caller).later wf).1 stubs
  have third := length_idsOf_supplyData data other
  have fourth := length_idsOf_supply kind globals
  cases kind with
  | function =>
    rw [if_pos rfl] at first
    rw [if_neg (by rintro ⟨_, ⟨⟩⟩)] at fourth
    omega
  | global =>
    rw [if_neg (by decide)] at first
    split at fourth <;> omega
  | data => exact absurd rfl other

end StaticLink.SymbolTable
