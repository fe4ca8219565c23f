import StaticLink.Proofs.SymbolTable.Binding
import StaticLink.Proofs.SymbolTable.Outcomes
import StaticLink.Proofs.SymbolTable.References

/-!
# What the symbols of the linker come to

The linker supplies its symbols one after the other, each under a name of its own. So each of them
meets what the inputs made of its name, and all other names keep their records.

* `Supply`: a symbol that the linker supplies; `SymbolTable.supplyAll`: several of them.
* `SymbolTable.settled_of_supplyAll`: what becomes of every name.
* `SymbolTable.stubsOf`, `linkerData`: the symbols for weak references and for addresses.
* `SymbolTable.exists_supplied_of_complete`: the steps of a completion.
* `SymbolTable.record?_stub_of_complete`, `SymbolTable.exists_weak_of_stub`: which names come to a
  stub.
* `SymbolTable.record?_address_of_complete`: the names of addresses come to these.
-/

namespace StaticLink

/-- A symbol that the linker supplies. -/
structure Supply where
  name : String
  flags : SymbolFlags
  target : Target
deriving DecidableEq

/-- The symbol as it is registered. -/
def Supply.symbol (item : Supply) : Symbol :=
  { name := item.name, flags := item.flags.union .hidden, context := Symbol.linkerContext,
    target := item.target }

theorem Supply.name_symbol (item : Supply) : item.symbol.name = item.name := rfl

/-- A data symbol that stands for an address. -/
def Supply.address (name : String) (address : Nat) : Supply :=
  ⟨name, .empty, .data (.synthesized (.ofNat address))⟩

/-- The global that points to the top of the stack. -/
def Supply.stackPointer (stackTop : Nat) : Supply :=
  ⟨stackPointerName, .empty, .global (.synthesized (Int32.ofInt stackTop))⟩

/-- The function that calls the initializers. -/
def Supply.caller (functions : List SymbolId) : Supply :=
  ⟨constructorCallerName, .empty, .function (.synthesized (.constructorCaller functions))⟩

/-- The stub for a function that is only weakly referred to. -/
def Supply.stub (name : String) (owner : ModuleId) (position : UInt32) : Supply :=
  ⟨name, .weak, .function (.synthesized (.trapStub owner position))⟩

/-- What is settled has the target of what stood before it or that of what arrives. -/
theorem Symbol.target_of_settle {standing : Option Symbol} {symbol record : Symbol}
    (settled : Symbol.settle standing symbol = .ok record) :
    record.target = symbol.target ∨ ∃ existing, standing = some existing ∧
      record.target = existing.target := by
  rcases standing with _ | existing
  · cases settled
    exact .inl rfl
  · obtain ⟨merge, merged, rfl⟩ := exists_merge_of_settle settled
    cases merge with
    | keep => exact .inr ⟨existing, rfl, rfl⟩
    | strengthen => exact .inr ⟨existing, rfl, rfl⟩
    | replace => exact .inl rfl

/-- A strong definition of its own target takes the place of what stands there, which is no strong
definition. -/
theorem Symbol.replaced_of_settle {standing : Option Symbol} {symbol record : Symbol}
    (settled : Symbol.settle standing symbol = .ok record)
    (strong : symbol.isStrongDefinition = true)
    (apart : ∀ before, standing = some before → before.target ≠ symbol.target) :
    record = symbol ∧ ∀ before, standing = some before →
      before.target.kind = symbol.target.kind ∧ before.isStrongDefinition = false := by
  obtain ⟨defined, heavy⟩ := Bool.and_eq_true_iff.1 strong
  have defined : symbol.isUndefined = false := by simpa [Symbol.isDefinition] using defined
  have heavy : symbol.isWeak = false := by simpa using heavy
  rcases standing with _ | existing
  · cases settled
    exact ⟨rfl, by rintro before ⟨⟩⟩
  · obtain ⟨merge, merged, rfl⟩ := exists_merge_of_settle settled
    have kind := Symbol.kind_eq_of_merge_eq_ok merged
    cases merge with
    | keep =>
      rcases (Symbol.merge_eq_keep_iff.1 merged).2 with ⟨undefined, -⟩ | ⟨-, -, weak | same⟩
      · cases undefined.symm.trans defined
      · cases weak.symm.trans heavy
      · exact absurd same (apart existing rfl)
    | strengthen => cases (Symbol.merge_eq_strengthen_iff.1 merged).2.1.symm.trans defined
    | replace =>
      refine ⟨rfl, ?_⟩
      rintro before ⟨⟩
      refine ⟨kind, ?_⟩
      rcases (Symbol.merge_eq_replace_iff.1 merged).2.2 with undefined | ⟨-, -, -, weak⟩
      · rw [Symbol.isStrongDefinition, Symbol.isDefinition, undefined]
        rfl
      · rw [Symbol.isStrongDefinition, weak]
        simp

namespace SymbolTable

variable {table next : SymbolTable} {item : Supply} {items : List Supply} {name : String}
  {record : Symbol}

/-! ## One symbol and several -/

/-- Supplies the symbols, one after the other. -/
def supplyAll (table : SymbolTable) (items : List Supply) : Except Error SymbolTable :=
  items.foldlM (fun table item => table.supply item.name item.flags item.target) table

theorem record?_of_supply (wf : table.WellFormed)
    (h : table.supply item.name item.flags item.target = .ok next) :
    next.WellFormed ∧ table.Extends next ∧
      ∃ record, Symbol.settle (table.record? item.name) item.symbol = .ok record ∧
        ∀ name, next.record? name = if name = item.name then some record
          else table.record? name := by
  obtain ⟨⟨id, added⟩, one, done⟩ := bind_eq_ok.1 h
  cases done
  have adds : Adds table item.symbol id next := adds_of_add_eq_ok one
  have settles := record?_of_adds wf adds
  rw [Supply.name_symbol] at settles
  exact ⟨wf.of_adds adds, .of_adds wf adds, settles⟩

theorem supplyAll_cons_eq_ok : table.supplyAll (item :: items) = .ok next ↔
    ∃ middle, table.supply item.name item.flags item.target = .ok middle ∧
      middle.supplyAll items = .ok next := by
  rw [supplyAll, List.foldlM_cons, bind_eq_ok]
  rfl

theorem supplyAll_append_eq_ok {more : List Supply} : table.supplyAll (items ++ more) = .ok next ↔
    ∃ middle, table.supplyAll items = .ok middle ∧ middle.supplyAll more = .ok next := by
  rw [supplyAll, List.foldlM_append, bind_eq_ok]
  rfl

theorem later_of_supplyAll (wf : table.WellFormed) (h : table.supplyAll items = .ok next) :
    next.WellFormed ∧ table.Extends next := by
  induction items generalizing table with
  | nil =>
    cases h
    exact ⟨wf, .refl _⟩
  | cons item rest ih =>
    obtain ⟨middle, one, others⟩ := supplyAll_cons_eq_ok.1 h
    obtain ⟨wf', first, -⟩ := record?_of_supply wf one
    obtain ⟨wf'', later⟩ := ih wf' others
    exact ⟨wf'', first.trans later⟩

/-- A name that nothing is supplied for keeps its record. -/
theorem record?_of_supplyAll (wf : table.WellFormed) (h : table.supplyAll items = .ok next)
    (apart : name ∉ items.map (·.name)) : next.record? name = table.record? name := by
  induction items generalizing table with
  | nil =>
    cases h
    rfl
  | cons item rest ih =>
    obtain ⟨middle, one, others⟩ := supplyAll_cons_eq_ok.1 h
    obtain ⟨other, apart⟩ := List.ne_and_not_mem_of_not_mem_cons apart
    obtain ⟨wf', -, record, -, records⟩ := record?_of_supply wf one
    rw [ih wf' others apart, records, if_neg other]

/-- A symbol that is supplied is settled with what its name stood for before. -/
theorem settled_of_supplyAll (wf : table.WellFormed) (h : table.supplyAll items = .ok next)
    (nodup : (items.map (·.name)).Nodup) (member : item ∈ items) :
    ∃ record, Symbol.settle (table.record? item.name) item.symbol = .ok record ∧
      next.record? item.name = some record := by
  obtain ⟨earlier, later, rfl⟩ := List.append_of_mem member
  obtain ⟨before, first, h⟩ := supplyAll_append_eq_ok.1 h
  obtain ⟨middle, one, others⟩ := supplyAll_cons_eq_ok.1 h
  rw [List.map_append, List.map_cons, List.nodup_append, List.nodup_cons] at nodup
  obtain ⟨-, ⟨behind, -⟩, ahead⟩ := nodup
  have apart : item.name ∉ earlier.map (·.name) := fun here =>
    ahead item.name here item.name List.mem_cons_self rfl
  obtain ⟨wf', -⟩ := later_of_supplyAll wf first
  obtain ⟨wf'', -, record, settled, records⟩ := record?_of_supply wf' one
  rw [record?_of_supplyAll wf first apart] at settled
  refine ⟨record, settled, ?_⟩
  rw [record?_of_supplyAll wf'' others behind, records, if_pos rfl]

/-- A record keeps out what is supplied of another kind. -/
theorem record?_of_supplyAll_of_kind (wf : table.WellFormed) (h : table.supplyAll items = .ok next)
    (standing : table.record? name = some record)
    (other : ∀ item ∈ items, item.target.kind ≠ record.target.kind) :
    next.record? name = some record := by
  induction items generalizing table with
  | nil =>
    cases h
    exact standing
  | cons item rest ih =>
    obtain ⟨middle, one, others⟩ := supplyAll_cons_eq_ok.1 h
    obtain ⟨different, other⟩ := List.forall_mem_cons.1 other
    obtain ⟨wf', -, _, settled, records⟩ := record?_of_supply wf one
    refine ih wf' others ?_ other
    rw [records, if_neg, standing]
    rintro rfl
    rw [standing] at settled
    obtain ⟨merge, merged, -⟩ := Symbol.exists_merge_of_settle settled
    exact different (Symbol.kind_eq_of_merge_eq_ok merged).symm

/-- A record has the target of what is supplied under its name or the one that it had before. -/
theorem target_of_supplyAll (wf : table.WellFormed) (h : table.supplyAll items = .ok next)
    (standing : next.record? name = some record) :
    (∃ item ∈ items, item.name = name ∧ record.target = item.target) ∨
      ∃ before, table.record? name = some before ∧ record.target = before.target := by
  induction items generalizing table with
  | nil =>
    cases h
    exact .inr ⟨record, standing, rfl⟩
  | cons item rest ih =>
    obtain ⟨middle, one, others⟩ := supplyAll_cons_eq_ok.1 h
    obtain ⟨wf', -, settled, settles, records⟩ := record?_of_supply wf one
    rcases ih wf' others with ⟨later, member, same⟩ | ⟨before, here, same⟩
    · exact .inl ⟨later, List.mem_cons_of_mem item member, same⟩
    · rw [records] at here
      split at here
      · next named =>
        cases here
        rcases Symbol.target_of_settle settles with target | ⟨existing, stood, target⟩
        · exact .inl ⟨item, List.mem_cons_self, named.symm, same.trans target⟩
        · exact .inr ⟨existing, by rw [named, stood], same.trans target⟩
      · exact .inr ⟨before, here, same⟩

/-- What the linker supplies is what its name leads to. -/
def SuppliedByName (table : SymbolTable) : Prop :=
  ∀ id record, table.records[id]? = some record → record.target.isSynthesized = true →
    table.lookup record.name = some id

theorem SuppliedByName.supplyAll (named : table.SuppliedByName) (wf : table.WellFormed)
    (h : table.supplyAll items = .ok next) : next.SuppliedByName := by
  induction items generalizing table with
  | nil =>
    cases h
    exact named
  | cons item rest ih =>
    obtain ⟨middle, one, others⟩ := supplyAll_cons_eq_ok.1 h
    obtain ⟨wf', later, -⟩ := record?_of_supply wf one
    refine ih (fun id record found supplied => ?_) wf' others
    obtain ⟨⟨place, added⟩, one, done⟩ := bind_eq_ok.1 one
    cases done
    have known : middle.lookup item.symbol.name = some place :=
      lookup_of_adds (adds_of_add_eq_ok one)
    have registered : table.register (.shared item.symbol) = .ok (place, middle) := one
    obtain ⟨-, -, -, same⟩ := exists_settled_of_register registered
    by_cases here : id = place
    · rw [here, wf'.name_eq known (here ▸ found), known]
    · rw [same id here] at found
      exact later.lookup _ _ (named id record found supplied)

/-! ## The symbols of the linker -/

/-- The stubs for the weak references to functions that nothing defines. -/
def stubsOf (table : SymbolTable) : List Supply :=
  table.weakFunctions.map fun (name, owner, position) => .stub name owner position

theorem supplyStubs_eq (table : SymbolTable) :
    table.supplyStubs = table.supplyAll (stubsOf table) := by
  rw [supplyAll, stubsOf, List.foldlM_map]
  rfl

theorem mem_weakFunctions_iff (wf : table.WellFormed) {owner : ModuleId} {position : UInt32} :
    (name, owner, position) ∈ table.weakFunctions ↔ ∃ record, table.record? name = some record ∧
      record.isWeak = true ∧ record.target = .function (.undefined owner position) := by
  unfold weakFunctions
  rw [List.mem_filterMap]
  constructor
  · rintro ⟨⟨id, record⟩, member, picked⟩
    obtain ⟨listed, weak⟩ := List.mem_filter.1 member
    obtain ⟨place, import', same⟩ := Option.map_eq_some_iff.1 picked
    cases same
    refine ⟨record, wf.record?_of_mem_symbols listed, weak, ?_⟩
    unfold Symbol.functionImport? at import'
    split at import'
    · next target =>
      cases import'
      exact target
    · cases import'
  · rintro ⟨record, standing, weak, target⟩
    obtain ⟨id, known, found⟩ := Option.bind_eq_some_iff.1 standing
    obtain rfl := wf.name_eq known found
    refine ⟨(id, record), List.mem_filter.2 ⟨wf.mem_symbols_iff.2 ⟨known, found⟩, weak⟩, ?_⟩
    simp only [Symbol.functionImport?, target, Option.map_some]

/-- Where what is picked has the keys of the items, so do several of them. -/
theorem map_filterMap_sublist {α β κ : Type} {pick : α → Option β} {key : β → κ} {key' : α → κ}
    (same : ∀ item found, pick item = some found → key found = key' item) (list : List α) :
    ((list.filterMap pick).map key).Sublist (list.map key') := by
  induction list with
  | nil => exact .slnil
  | cons item rest ih =>
    rcases picked : pick item with _ | found
    · rw [List.filterMap_cons_none picked]
      exact ih.cons _
    · rw [List.filterMap_cons_some picked, List.map_cons, List.map_cons, same item found picked]
      exact ih.cons_cons _

/-- Each name gets one stub. -/
theorem nodup_stubsOf (wf : table.WellFormed) : ((stubsOf table).map (·.name)).Nodup := by
  have names : (table.symbols.map fun symbol => symbol.2.name).Nodup := by
    refine List.Nodup.map_on ?_ wf.nodup_symbols.of_map
    rintro ⟨id, record⟩ one ⟨id', record'⟩ two same
    rw [wf.mem_symbols_iff] at one two
    obtain ⟨known, found⟩ := one
    obtain ⟨known', found'⟩ := two
    rw [show record.name = record'.name from same] at known
    cases known.symm.trans known'
    cases found.symm.trans found'
    rfl
  rw [stubsOf, List.map_map]
  refine (names.sublist (List.filter_sublist.map _)).sublist (map_filterMap_sublist ?_ _)
  intro symbol found picked
  obtain ⟨place, -, rfl⟩ := Option.map_eq_some_iff.1 picked
  rfl

/-! ### Their names -/

theorem startMarkerName_inj {first second : String} :
    startMarkerName first = startMarkerName second ↔ first = second :=
  String.append_right_inj _

theorem stopMarkerName_inj {first second : String} :
    stopMarkerName first = stopMarkerName second ↔ first = second :=
  String.append_right_inj _

/-- Names that differ in one place of what they begin with. -/
theorem append_ne_of_getElem? {first second : String} (place : Nat) (first' second' : String)
    (inside : place < first.toList.length ∧ place < second.toList.length)
    (differ : first.toList[place]? ≠ second.toList[place]?) :
    first ++ first' ≠ second ++ second' := by
  intro same
  have here := congrArg (fun name : String => name.toList[place]?) same
  simp only [String.toList_append] at here
  rw [List.getElem?_append_left inside.1, List.getElem?_append_left inside.2] at here
  exact differ here

theorem startMarkerName_ne_stopMarkerName (first second : String) :
    startMarkerName first ≠ stopMarkerName second :=
  append_ne_of_getElem? 4 first second (by decide) (by decide)

/-- What else the linker supplies has other names than the markers. -/
theorem markerName_ne {name : String} (other : name = programHandleName ∨ name = stackPointerName ∨
    name = constructorCallerName) (segment : String) :
    startMarkerName segment ≠ name ∧ stopMarkerName segment ≠ name := by
  rw [← String.append_empty (s := name)]
  rcases other with rfl | rfl | rfl
  · exact ⟨append_ne_of_getElem? 2 _ _ (by decide) (by decide),
      append_ne_of_getElem? 2 _ _ (by decide) (by decide)⟩
  · exact ⟨append_ne_of_getElem? 5 _ _ (by decide) (by decide),
      append_ne_of_getElem? 4 _ _ (by decide) (by decide)⟩
  · exact ⟨append_ne_of_getElem? 2 _ _ (by decide) (by decide),
      append_ne_of_getElem? 2 _ _ (by decide) (by decide)⟩

/-- The data symbols of the linker: where each output segment starts and stops, and the one that
stands for the whole program. -/
def linkerData (segments : List OutputSegment) : List Supply :=
  (segments.flatMap fun segment => [.address (startMarkerName segment.name) segment.address,
    .address (stopMarkerName segment.name) segment.stop]) ++ [.address programHandleName 0]

theorem mem_linkerData {segments : List OutputSegment} {item : Supply} :
    item ∈ linkerData segments ↔
      (∃ segment ∈ segments, item = .address (startMarkerName segment.name) segment.address ∨
        item = .address (stopMarkerName segment.name) segment.stop) ∨
      item = .address programHandleName 0 := by
  simp [linkerData]

/-- What is supplied last has different names, if the output segments do. -/
theorem nodup_linkerData {segments : List OutputSegment}
    (names : (segments.map (·.name)).Nodup) (stackTop : Nat) :
    ((linkerData segments ++ [Supply.stackPointer stackTop]).map (·.name)).Nodup := by
  have markers : ((segments.flatMap fun segment =>
      [Supply.address (startMarkerName segment.name) segment.address,
        .address (stopMarkerName segment.name) segment.stop]).map (·.name)).Nodup := by
    rw [List.map_flatMap, List.nodup_flatMap]
    constructor
    · intro segment _
      simpa [Supply.address] using startMarkerName_ne_stopMarkerName segment.name segment.name
    · refine (List.pairwise_map.1 names).imp fun {first second} apart name one two => ?_
      simp only [Supply.address, List.map_cons, List.map_nil, List.mem_cons, List.not_mem_nil,
        or_false] at one two
      rcases one with rfl | rfl <;> rcases two with same | same
      · exact apart (startMarkerName_inj.1 same)
      · exact startMarkerName_ne_stopMarkerName _ _ same
      · exact startMarkerName_ne_stopMarkerName _ _ same.symm
      · exact apart (stopMarkerName_inj.1 same)
  rw [linkerData, List.append_assoc, List.map_append, List.nodup_append]
  have both : programHandleName ≠ stackPointerName := by decide
  refine ⟨markers, by simpa [Supply.address, Supply.stackPointer] using both, ?_⟩
  rintro name one other two rfl
  obtain ⟨item, member, rfl⟩ := List.mem_map.1 one
  obtain ⟨segment, -, member⟩ := List.mem_flatMap.1 member
  have last : item.name = programHandleName ∨ item.name = stackPointerName := by
    simpa [Supply.address, Supply.stackPointer] using two
  obtain ⟨start, stop⟩ := markerName_ne (last.imp_right .inl) segment.name
  rcases List.mem_cons.1 member with rfl | member
  · exact start rfl
  · rw [List.mem_singleton.1 member] at stop
    exact stop rfl

theorem supplyAll_of_supplyData {segments : List OutputSegment}
    (h : table.supplyData segments = .ok next) : table.supplyAll (linkerData segments) = .ok next := by
  obtain ⟨marked, markers, handle⟩ := bind_eq_ok.1 h
  refine supplyAll_append_eq_ok.2 ⟨marked, ?_, supplyAll_cons_eq_ok.2 ⟨next, handle, rfl⟩⟩
  clear handle h
  induction segments generalizing table with
  | nil => exact markers
  | cons segment rest ih =>
    rw [List.foldlM_cons] at markers
    obtain ⟨both, one, markers⟩ := bind_eq_ok.1 markers
    obtain ⟨started, start, stop⟩ := bind_eq_ok.1 one
    rw [List.flatMap_cons, supplyAll_append_eq_ok]
    refine ⟨both, supplyAll_cons_eq_ok.2 ⟨started, start, ?_⟩, ih markers⟩
    exact supplyAll_cons_eq_ok.2 ⟨both, stop, rfl⟩

/-- What is supplied for the initializers: the function that calls them all, or nothing if no input
has its name. -/
def CallerFor (table : SymbolTable) (items : List Supply) : Prop :=
  (items = [] ∧ table.lookup constructorCallerName = none) ∨
    ∃ functions, items = [Supply.caller functions]

theorem exists_supplied_of_caller {modules : List ObjectModule}
    (h : table.supplyConstructorCaller modules = .ok next) :
    ∃ items, table.CallerFor items ∧ table.supplyAll items = .ok next := by
  obtain ⟨functions, -, h⟩ := bind_eq_ok.1 h
  dsimp only at h
  split at h
  · next unneeded =>
    cases h
    have unnamed := Option.isNone_iff_eq_none.1 (Bool.and_eq_true_iff.1 unneeded).2
    exact ⟨[], .inl ⟨rfl, unnamed⟩, rfl⟩
  · exact ⟨_, .inr ⟨_, rfl⟩, supplyAll_cons_eq_ok.2 ⟨next, h, rfl⟩⟩

/-- The steps of a completion: for the initializers, for weak references to functions, and for data
and the stack. -/
theorem exists_supplied_of_complete {modules : List ObjectModule} {layout : DataLayout}
    {stackTop : Nat} (h : table.complete modules layout stackTop = .ok next) :
    ∃ callers called stubbed, table.CallerFor callers ∧ table.supplyAll callers = .ok called ∧
      called.supplyAll (stubsOf called) = .ok stubbed ∧
      stubbed.supplyAll (linkerData layout.segments ++ [.stackPointer stackTop]) = .ok next := by
  obtain ⟨called, stubbed, marked, caller, stubs, data, globals, -⟩ := steps_of_complete h
  obtain ⟨callers, needed, supplied⟩ := exists_supplied_of_caller caller
  rw [supplyStubs_eq] at stubs
  have last : marked.supplyAll [.stackPointer stackTop] = .ok next :=
    supplyAll_cons_eq_ok.2 ⟨next, globals, rfl⟩
  refine ⟨callers, called, stubbed, needed, supplied, stubs, ?_⟩
  exact supplyAll_append_eq_ok.2 ⟨marked, supplyAll_of_supplyData data, last⟩

theorem SuppliedByName.complete {modules : List ObjectModule} {layout : DataLayout}
    {stackTop : Nat} (named : table.SuppliedByName) (wf : table.WellFormed)
    (h : table.complete modules layout stackTop = .ok next) : next.SuppliedByName := by
  obtain ⟨callers, called, stubbed, -, one, two, three⟩ := exists_supplied_of_complete h
  obtain ⟨wf', -⟩ := later_of_supplyAll wf one
  obtain ⟨wf'', -⟩ := later_of_supplyAll wf' two
  exact ((named.supplyAll wf one).supplyAll wf' two).supplyAll wf'' three

/-! ## Stubs -/

section Stubs

variable {callers : List Supply} {called stubbed : SymbolTable} {owner : ModuleId}
  {position : UInt32}

theorem CallerFor.is_caller (needed : table.CallerFor callers) (member : item ∈ callers) :
    item.name = constructorCallerName ∧
      ∃ functions, item.target = .function (.synthesized (.constructorCaller functions)) := by
  obtain ⟨rfl, -⟩ | ⟨functions, rfl⟩ := needed
  · cases member
  · rw [List.mem_singleton.1 member]
    exact ⟨rfl, functions, rfl⟩

/-- The name of the function for the initializers is never that of a reference afterwards. -/
theorem CallerFor.defined (needed : table.CallerFor callers) (wf : table.WellFormed)
    (h : table.supplyAll callers = .ok called)
    (standing : called.record? constructorCallerName = some record) :
    record.isUndefined = false := by
  obtain ⟨rfl, unnamed⟩ | ⟨functions, rfl⟩ := needed
  · cases h
    rw [record?_of_lookup_eq_none unnamed] at standing
    cases standing
  · obtain ⟨_, settled, here⟩ :=
      settled_of_supplyAll wf h (List.nodup_singleton _) (List.mem_singleton_self _)
    cases standing.symm.trans here
    exact Symbol.isUndefined_of_settle rfl settled

/-- Only the name of the function for the initializers is touched. -/
theorem CallerFor.record? (needed : table.CallerFor callers) (wf : table.WellFormed)
    (h : table.supplyAll callers = .ok called) (other : name ≠ constructorCallerName) :
    called.record? name = table.record? name := by
  refine record?_of_supplyAll wf h fun listed => ?_
  obtain ⟨item, member, rfl⟩ := List.mem_map.1 listed
  exact other (needed.is_caller member).1

/-- What is supplied for data and the stack is no function. -/
theorem kind_of_linkerData {segments : List OutputSegment} {stackTop : Nat}
    (member : item ∈ linkerData segments ++ [.stackPointer stackTop]) :
    item.target.kind ≠ .function := by
  rcases List.mem_append.1 member with member | member
  · rcases mem_linkerData.1 member with ⟨segment, -, rfl | rfl⟩ | rfl <;> exact nofun
  · rw [List.mem_singleton.1 member]
    exact nofun

variable {modules : List ObjectModule} {layout : DataLayout} {stackTop : Nat}

/-- The record of a stub. -/
def stubRecord (name : String) (owner : ModuleId) (position : UInt32) : Symbol :=
  (Supply.stub name owner position).symbol

/-- A function that is only weakly referred to comes to its stub. -/
theorem record?_stub_of_complete (wf : table.WellFormed)
    (h : table.complete modules layout stackTop = .ok next) (other : name ≠ constructorCallerName)
    (standing : table.record? name = some record) (weak : record.isWeak = true)
    (target : record.target = .function (.undefined owner position)) :
    next.record? name = some (stubRecord name owner position) := by
  obtain ⟨callers, called, stubbed, needed, one, two, three⟩ := exists_supplied_of_complete h
  obtain ⟨wf', -⟩ := later_of_supplyAll wf one
  obtain ⟨wf'', -⟩ := later_of_supplyAll wf' two
  rw [← needed.record? wf one other] at standing
  have listed : Supply.stub name owner position ∈ stubsOf called :=
    List.mem_map.2 ⟨_, (mem_weakFunctions_iff wf').2 ⟨record, standing, weak, target⟩, rfl⟩
  obtain ⟨settled, settles, here⟩ := settled_of_supplyAll wf' two (nodup_stubsOf wf') listed
  -- A definition takes the place of a reference.
  have replaced : settled = stubRecord name owner position := by
    have same : called.record? (Supply.stub name owner position).name = some record := standing
    rw [same, Symbol.settle_some] at settles
    have merged : record.merge (Supply.stub name owner position).symbol = .ok .replace := by
      rw [Symbol.merge_eq_replace_iff, target]
      exact ⟨rfl, rfl, .inl (by rw [Symbol.isUndefined, target]; rfl)⟩
    rw [merged] at settles
    cases settles
    rfl
  rw [replaced] at here
  exact record?_of_supplyAll_of_kind wf'' three here fun item member => kind_of_linkerData member

/-- A stub stands for a name that is only weakly referred to. -/
theorem exists_weak_of_stub (wf : table.WellFormed)
    (given : ∀ record, table.record? name = some record → record.target.isSynthesized = false)
    (h : table.complete modules layout stackTop = .ok next)
    (standing : next.record? name = some record)
    (target : record.target = .function (.synthesized (.trapStub owner position))) :
    name ≠ constructorCallerName ∧ ∃ before, table.record? name = some before ∧
      before.isWeak = true ∧ before.target = .function (.undefined owner position) := by
  obtain ⟨callers, called, stubbed, needed, one, two, three⟩ := exists_supplied_of_complete h
  obtain ⟨wf', -⟩ := later_of_supplyAll wf one
  obtain ⟨wf'', -⟩ := later_of_supplyAll wf' two
  rcases target_of_supplyAll wf'' three standing with ⟨item, member, -, same⟩ | ⟨middle, here, same⟩
  · refine absurd ?_ (kind_of_linkerData member)
    rw [← same, target]
    rfl
  rw [target] at same
  rcases target_of_supplyAll wf' two here with ⟨item, member, rfl, stub⟩ | ⟨early, there, same'⟩
  · obtain ⟨⟨called', owner', position'⟩, weak, rfl⟩ := List.mem_map.1 member
    cases same.trans stub
    obtain ⟨before, known, isWeak, reference⟩ := (mem_weakFunctions_iff wf').1 weak
    have other : called' ≠ constructorCallerName := by
      rintro rfl
      have defined := needed.defined wf one known
      rw [Symbol.isUndefined, reference] at defined
      cases defined
    rw [needed.record? wf one other] at known
    exact ⟨other, before, known, isWeak, reference⟩
  · -- Neither an input nor the function for the initializers is a stub.
    rw [same'] at same
    rcases target_of_supplyAll wf one there with ⟨item, member, -, caller⟩ | ⟨first, known, same''⟩
    · obtain ⟨-, functions, is⟩ := needed.is_caller member
      rw [caller, is] at same
      cases same
    · have none := given first known
      rw [← same'', ← same] at none
      cases none

end Stubs

/-! ## Addresses -/

section Addresses

theorem isStrongDefinition_address (name : String) (address : Nat) :
    (Supply.address name address).symbol.isStrongDefinition = true := by
  have strong : (SymbolFlags.empty.union .hidden).contains .weak = false := by decide
  show (true && !(SymbolFlags.empty.union .hidden).contains .weak) = true
  rw [strong]
  rfl

variable {modules : List ObjectModule} {layout : DataLayout} {stackTop : Nat}

/-- Nothing but a data symbol of the inputs stands in the way of one of the linker. -/
theorem record?_of_linkerData {callers : List Supply} {called stubbed : SymbolTable}
    {segments : List OutputSegment} (wf : table.WellFormed) (needed : table.CallerFor callers)
    (one : table.supplyAll callers = .ok called)
    (two : called.supplyAll (stubsOf called) = .ok stubbed) (member : item ∈ linkerData segments)
    (settled : Symbol.settle (stubbed.record? item.name) item.symbol = .ok record) :
    stubbed.record? item.name = table.record? item.name := by
  obtain ⟨wf', -⟩ := later_of_supplyAll wf one
  have other : item.name ≠ constructorCallerName := by
    rcases mem_linkerData.1 member with ⟨segment, -, rfl | rfl⟩ | rfl
    · exact (markerName_ne (.inr (.inr rfl)) segment.name).1
    · exact (markerName_ne (.inr (.inr rfl)) segment.name).2
    · decide
  rw [← needed.record? wf one other]
  refine record?_of_supplyAll wf' two fun listed => ?_
  -- A stub of this name would be a function.
  obtain ⟨stub, among, same⟩ := List.mem_map.1 listed
  obtain ⟨standing, settles, here⟩ := settled_of_supplyAll wf' two (nodup_stubsOf wf') among
  rw [same] at here
  rw [here] at settled
  obtain ⟨merge, merged, -⟩ := Symbol.exists_merge_of_settle settled
  have data : standing.target.kind = .data := by
    rw [Symbol.kind_eq_of_merge_eq_ok merged]
    rcases mem_linkerData.1 member with ⟨segment, -, rfl | rfl⟩ | rfl <;> rfl
  have function : stub.target.kind = .function := by
    obtain ⟨⟨called', owner, position⟩, -, rfl⟩ := List.mem_map.1 among
    rfl
  rcases Symbol.target_of_settle settles with target | ⟨existing, stood, target⟩
  · rw [target] at data
    cases data.symm.trans function
  · rw [stood] at settles
    obtain ⟨merge, merged, -⟩ := Symbol.exists_merge_of_settle settles
    rw [target, Symbol.kind_eq_of_merge_eq_ok merged] at data
    cases data.symm.trans function

/-- A data symbol of the linker is what its name stands for. Inputs can refer to it and define it
weakly. -/
theorem record?_address_of_complete (wf : table.WellFormed)
    (given : ∀ record, table.record? name = some record → record.target.isSynthesized = false)
    (names : (layout.segments.map (·.name)).Nodup)
    (h : table.complete modules layout stackTop = .ok next) (member : item ∈ linkerData layout.segments)
    (same : item.name = name) :
    next.record? name = some item.symbol ∧ ∀ before, table.record? name = some before →
      before.target.kind = .data ∧ before.isStrongDefinition = false := by
  obtain ⟨callers, called, stubbed, needed, one, two, three⟩ := exists_supplied_of_complete h
  obtain ⟨wf', -⟩ := later_of_supplyAll wf one
  obtain ⟨wf'', -⟩ := later_of_supplyAll wf' two
  obtain ⟨record, settled, here⟩ := settled_of_supplyAll wf'' three
    (nodup_linkerData names stackTop) (List.mem_append_left _ member)
  have supplied : item.target.kind = .data ∧ item.target.isSynthesized = true ∧
      item.symbol.isStrongDefinition = true := by
    rcases mem_linkerData.1 member with ⟨segment, -, rfl | rfl⟩ | rfl <;>
      exact ⟨rfl, rfl, isStrongDefinition_address ..⟩
  obtain ⟨data, synthesized, strong⟩ := supplied
  have before := record?_of_linkerData wf needed one two member settled
  rw [before] at settled
  rw [same] at settled here
  obtain ⟨rfl, others⟩ := Symbol.replaced_of_settle settled strong fun existing standing target => by
    have none := given existing standing
    rw [show existing.target = item.target from target, synthesized] at none
    cases none
  refine ⟨here, fun existing standing => ?_⟩
  obtain ⟨kind, weaker⟩ := others existing standing
  exact ⟨kind.trans data, weaker⟩

end Addresses

end SymbolTable

end StaticLink
