import StaticLink.Proofs.SymbolTable.Completion
import StaticLink.Proofs.SymbolTable.Count
import StaticLink.Proofs.SymbolTable.Resolution

/-!
# References that stay

What is registered can satisfy references and never undoes that. Once the linker has added its own
symbols, only some references are left.

* `SymbolTable.Defines`: a name stands for a definition, now and in every later table.
* `SymbolTable.reference_of_run`: registering definitions makes no reference and changes none.
* `Symbol.Completed`: what a non-local symbol of a complete table can be.
* `SymbolTable.completed_of_complete`: it is nothing else.
-/

namespace StaticLink

/-- What a non-local symbol can be when nothing more is registered. References to data are weak,
and those to functions strong. -/
inductive Symbol.Completed (symbol : Symbol) : Prop
  /-- An input or the linker defines the symbol. -/
  | definition (defined : symbol.isDefinition = true)
  | strongFunction {owner : ModuleId} {position : UInt32}
      (target : symbol.target = .function (.undefined owner position))
      (strong : symbol.isWeak = false)
  | strongGlobal {owner : ModuleId} {position : UInt32}
      (target : symbol.target = .global (.undefined owner position))
      (strong : symbol.isWeak = false)
  | weakGlobal {owner : ModuleId} {position : UInt32}
      (target : symbol.target = .global (.undefined owner position))
      (weak : symbol.isWeak = true)
  | weakData (target : symbol.target = .data .undefined) (weak : symbol.isWeak = true)

namespace SymbolTable

variable {table next : SymbolTable} {symbol record : Symbol} {id : SymbolId} {name : String}

/-- A non-local symbol is what its name leads to. -/
theorem WellFormed.mem_symbols_iff (wf : table.WellFormed) :
    (id, record) ∈ table.symbols ↔
      table.lookup record.name = some id ∧ table.records[id]? = some record := by
  refine ⟨wf.lookup_of_mem_symbols, ?_⟩
  rintro ⟨known, found⟩
  obtain ⟨⟨name, place⟩, entry, rfl⟩ := Option.map_eq_some_iff.1 known
  refine List.mem_filterMap.2 ⟨(name, place), (Array.mem_of_find?_eq_some entry).val, ?_⟩
  dsimp only
  rw [found, Option.map_some]

theorem WellFormed.record?_of_mem_symbols (wf : table.WellFormed)
    (member : (id, record) ∈ table.symbols) : table.record? record.name = some record := by
  obtain ⟨known, found⟩ := wf.lookup_of_mem_symbols member
  exact record?_of_lookup known found

/-! ## Names that are defined -/

/-- The name stands for a definition. -/
def Defines (table : SymbolTable) (name : String) : Prop :=
  ∃ id record, table.lookup name = some id ∧ table.records[id]? = some record ∧
    record.isDefinition = true

theorem Defines.later (defines : table.Defines name) (later : table.Extends next) :
    next.Defines name := by
  obtain ⟨id, record, known, found, defined⟩ := defines
  obtain ⟨now, stands, becomes⟩ := later.record id record found
  exact ⟨id, now, later.lookup name id known, stands, becomes.definition defined⟩

/-- A name that is defined is no reference. -/
theorem Defines.isDefinition (defines : table.Defines name) (wf : table.WellFormed)
    (member : (id, record) ∈ table.symbols) (named : record.name = name) :
    record.isDefinition = true := by
  obtain ⟨place, standing, known, found, defined⟩ := defines
  obtain ⟨known', found'⟩ := wf.lookup_of_mem_symbols member
  rw [named, known] at known'
  cases known'
  rw [found] at found'
  cases found'
  exact defined

/-- A definition that is accepted defines its name, whatever the name stood for. -/
theorem defines_of_adds (adds : Adds table symbol id next) (defined : symbol.isDefinition = true) :
    next.Defines symbol.name := by
  have incoming : symbol.isUndefined = false := by simpa [Symbol.isDefinition] using defined
  cases adds with
  | introduced new =>
    refine ⟨table.records.size, symbol, ?_, by simp, defined⟩
    rw [lookup_introduce, new, if_pos rfl]
    rfl
  | @kept _ existing known found merged =>
    refine ⟨id, existing, known, found, ?_⟩
    -- A reference would have been replaced.
    rw [Symbol.merge_eq_keep_iff] at merged
    unfold Symbol.isDefinition
    grind
  | strengthened _ _ merged =>
    obtain ⟨-, undefined, -⟩ := Symbol.merge_eq_strengthen_iff.1 merged
    rw [incoming] at undefined
    cases undefined
  | replaced known found _ =>
    refine ⟨id, symbol, by rw [lookup_resolve, known], ?_, defined⟩
    rw [records_resolve, Array.getElem?_setIfInBounds, if_pos rfl,
      if_pos (lt_size_of_getElem? found)]

/-! ## References that were there before -/

/-- Registering a definition makes no reference and changes none. -/
theorem reference_of_after {call : Registration}
    (incoming : call.symbol.target.isUndefined = false)
    (found : (table.after call).records[id]? = some record)
    (undefined : record.isUndefined = true) : table.records[id]? = some record := by
  have defined {symbol : Symbol} (incoming : symbol.target.isUndefined = false) :
      record ≠ symbol := by
    rintro rfl
    rw [Symbol.isUndefined, incoming] at undefined
    cases undefined
  rcases after_cases table call with same | ⟨symbol, other, next, rfl, adds, same⟩ |
    ⟨symbol, rfl, same⟩
  · rwa [same] at found
  · rw [same] at found
    cases adds with
    | introduced =>
      rw [records_introduce] at found
      exact (getElem?_push_cases found).resolve_right (defined incoming)
    | kept => exact found
    | strengthened _ _ merged =>
      obtain ⟨-, reference, -⟩ := Symbol.merge_eq_strengthen_iff.1 merged
      exact absurd (reference.symm.trans incoming) (by decide)
    | replaced =>
      rw [records_resolve] at found
      exact (getElem?_setIfInBounds_cases found).resolve_right fun last => defined incoming last.2
  · rw [same, records_addLocal] at found
    exact (getElem?_push_cases found).resolve_right (defined incoming)

/-- Registering definitions makes no reference and changes none. -/
theorem reference_of_run (calls : List Registration)
    (incoming : ∀ call ∈ calls, call.symbol.target.isUndefined = false)
    (found : (table.run calls).records[id]? = some record)
    (undefined : record.isUndefined = true) : table.records[id]? = some record := by
  induction calls generalizing table with
  | nil => exact found
  | cons call rest ih =>
    have middle := ih (fun other member => incoming other (List.mem_cons_of_mem call member)) found
    exact reference_of_after (incoming call List.mem_cons_self) middle undefined

/-- What the linker supplies is no reference. -/
theorem isUndefined_of_supplied {target : Target} (supplied : Supplied target) :
    target.isUndefined = false := by
  unfold Supplied Target.isSynthesized at supplied
  split at supplied
  · rfl
  · rfl
  · rfl
  · cases supplied

/-- The linker adds no references and changes none. -/
theorem reference_of_supplied (reached : ReachedBy Supplied table next)
    (found : next.records[id]? = some record) (undefined : record.isUndefined = true) :
    table.records[id]? = some record := by
  obtain ⟨calls, rfl, supplied⟩ := reached
  refine reference_of_run calls ?_ found undefined
  exact fun call member => isUndefined_of_supplied (supplied call member)

/-- A name that is a reference after what the linker adds was one before. -/
theorem record?_of_supplied (reached : ReachedBy Supplied table next) (wf : table.WellFormed)
    (standing : next.record? name = some record) (undefined : record.isUndefined = true) :
    table.record? name = some record := by
  obtain ⟨id, known, found⟩ := Option.bind_eq_some_iff.1 standing
  have before := reference_of_supplied reached found undefined
  have small := lt_size_of_getElem? before
  exact record?_of_lookup ((reached.later wf).2.unreached name id small known) before

/-! ## Stubs -/

theorem defines_of_supply {flags : SymbolFlags} {target : Target} (supplied : Supplied target)
    (h : table.supply name flags target = .ok next) : next.Defines name := by
  obtain ⟨⟨id, added⟩, one, done⟩ := bind_eq_ok.1 h
  cases done
  refine defines_of_adds (adds_of_add_eq_ok one) ?_
  rw [Symbol.isDefinition, Symbol.isUndefined, isUndefined_of_supplied supplied]
  rfl

/-- The names for which stubs are supplied are defined after that. -/
theorem defines_of_stubs {items : List (String × ModuleId × UInt32)} (wf : table.WellFormed)
    (h : items.foldlM (fun table (name, owner, position) =>
      table.supply name .weak (.function (.synthesized (.trapStub owner position)))) table =
        .ok next) {item : String × ModuleId × UInt32} (member : item ∈ items) :
    next.Defines item.1 := by
  induction items generalizing table with
  | nil => cases member
  | cons first rest ih =>
    rw [List.foldlM_cons] at h
    obtain ⟨middle, one, h⟩ := bind_eq_ok.1 h
    obtain ⟨wf', -⟩ := (reached_of_supply one rfl).later wf
    rcases List.mem_cons.1 member with here | member
    · have defines : middle.Defines item.1 := by
        rw [here]
        exact defines_of_supply (by rfl) one
      have others : ReachedBy Supplied middle next := by
        refine foldlM_keeps (ReachedBy Supplied middle) h ?_ (.refl _ middle)
        exact fun before item after step reached => reached.trans (reached_of_supply step rfl)
      exact defines.later (others.later wf').2
    · exact ih wf' h member

/-- No weak reference to a function is left when there are stubs. -/
theorem isWeak_of_supplyStubs (wf : table.WellFormed) (h : table.supplyStubs = .ok next)
    {owner : ModuleId} {position : UInt32} (standing : next.record? name = some record)
    (target : record.target = .function (.undefined owner position)) : record.isWeak = false := by
  by_contra weak
  have reached := reached_of_supplyStubs h
  have undefined : record.isUndefined = true := by rw [Symbol.isUndefined, target]; rfl
  obtain ⟨id, known, found⟩ :=
    Option.bind_eq_some_iff.1 (record?_of_supplied reached wf standing undefined)
  -- The reference was among those that the stubs are for.
  have named := wf.name_eq known found
  have member : (name, owner, position) ∈ table.weakFunctions := by
    refine List.mem_filterMap.2 ⟨(id, record), List.mem_filter.2 ⟨?_, ?_⟩, ?_⟩
    · exact wf.mem_symbols_iff.2 ⟨by rw [named, known], found⟩
    · exact (Bool.not_eq_false _).mp weak
    · simp only [Symbol.functionImport?, target, Option.map_some, named]
  obtain ⟨place, stub, known', found', defined⟩ := defines_of_stubs wf h member
  have same := (record?_of_lookup known' found').symm.trans standing
  cases same
  rw [Symbol.isDefinition, undefined] at defined
  cases defined

/-! ## Complete tables -/

/-- No strong reference to data is left where none is found. -/
theorem isWeak_of_undefinedData? (none : table.undefinedData? = none)
    (member : (id, record) ∈ table.symbols) (target : record.target = .data .undefined) :
    record.isWeak = true := by
  have checked := List.find?_eq_none.1 none record (List.mem_map_of_mem member)
  simpa [target] using checked

theorem completed_of_complete {modules : List ObjectModule} {layout : DataLayout} {stackTop : Nat}
    (wf : table.WellFormed) (h : table.complete modules layout stackTop = .ok next)
    (member : (id, record) ∈ next.symbols) : record.Completed := by
  obtain ⟨called, stubbed, marked, caller, stubs, data, globals, none⟩ := steps_of_complete h
  have wf₁ := ((reached_of_supplyConstructorCaller caller).later wf).1
  have wf₂ := ((reached_of_supplyStubs stubs).later wf₁).1
  have others := (reached_of_supplyData data).trans (reached_of_supply globals rfl)
  have standing := (others.later wf₂).1.record?_of_mem_symbols member
  rcases undefined : record.isUndefined with _ | _
  · exact .definition (by rw [Symbol.isDefinition, undefined]; rfl)
  have before := record?_of_supplied others wf₂ standing undefined
  unfold Symbol.isUndefined Target.isUndefined at undefined
  split at undefined
  · next owner position target =>
    exact .strongFunction target (isWeak_of_supplyStubs wf₁ stubs before target)
  · next owner position target =>
    rcases weakness : record.isWeak with _ | _
    · exact .strongGlobal target weakness
    · exact .weakGlobal target weakness
  · next target => exact .weakData target (isWeak_of_undefinedData? none member target)
  · cases undefined

end SymbolTable

end StaticLink
