import StaticLink.Proofs.Grounded
import StaticLink.Proofs.Inputs.Intact
import StaticLink.Proofs.Relocation.Demand
import StaticLink.Proofs.SymbolTable.References

/-!
# Completing a table follows no reference that leads nowhere

Completing a table asks for no function either, so that it never fails for one without a stub.

* `SymbolTable.blames_add`: registering a symbol looks up records that exist.
* `Intact.register`: references still lead somewhere after it.
* `Intact.complete`: the same for all symbols that the linker adds.
-/

namespace StaticLink

variable {Q : String → Prop} {R : Prop}

theorem ObjectModule.blames_slot (module : ObjectModule) (index : UInt32) :
    Blames Q R (module.slot index) := by
  unfold slot
  split
  · exact .ok _
  · exact .error (by simp)

namespace SymbolTable

variable {table next : SymbolTable} {symbol : Symbol} {id : SymbolId} {kind : Target.Kind}

theorem Registered.blames_get (registered : table.Registered id kind) :
    Blames Q R (table.get id) := by
  obtain ⟨record, found, -⟩ := registered
  exact .existing found

/-- The record of a name exists, and a conflict with it is no such failure. -/
theorem blames_add (wf : table.WellFormed) : Blames Q R (table.add symbol) := by
  rcases known : table.lookup symbol.name with _ | id
  · rw [add_of_lookup_eq_none known]
    exact .ok _
  · obtain ⟨existing, found, -⟩ := wf.named symbol.name id known
    rw [add_of_lookup known found]
    rcases merged : existing.merge symbol with cause | merge
    · refine Blames.error ?_
      rcases Symbol.merge_eq_error_iff.1 merged with ⟨-, rfl⟩ | ⟨-, -, -, -, rfl⟩ <;> simp
    · exact .ok _

end SymbolTable

/-- A step that completes a table: it follows no reference that leads nowhere and asks for no
function, and after it references lead somewhere. -/
structure Intact.Kept (modules : List ObjectModule) (step : Except Error SymbolTable) : Prop where
  blames : ∀ Q R, Blames Q R step
  intact : ∀ next, step = .ok next → Intact modules next

namespace Intact

variable {modules : List ObjectModule} {symbols next : SymbolTable} {id : SymbolId}

/-! ## One symbol -/

/-- A symbol that is accepted breaks no reference if its target exists. -/
theorem register (intact : Intact modules symbols) {call : SymbolTable.Registration}
    (h : symbols.register call = .ok (id, next))
    (exist : call.symbol.target.Exists modules symbols) : Intact modules next := by
  have step : SymbolTable.ReachedBy (fun target => target.Exists modules next) symbols next := by
    have extends' : symbols.Extends next :=
      ((SymbolTable.ReachedBy.of_register (P := fun _ => True) h trivial).later
        intact.wellFormed).2
    exact .of_register h (exist.later extends')
  obtain ⟨wf, later⟩ := step.later intact.wellFormed
  refine ⟨wf, ?_, ?_, ?_, intact.laidOut⟩
  · exact step.targets fun id record found => (intact.targets id record found).later later
  · exact fun module member => (intact.slots module member).later rfl (.refl module) later
  · exact fun module member => (intact.imports module member).later later rfl rfl

theorem Kept.bind {step : Except Error SymbolTable} {then' : SymbolTable → Except Error SymbolTable}
    (first : Kept modules step) (second : ∀ table, Intact modules table → Kept modules (then' table)) :
    Kept modules (step >>= then') where
  blames := fun Q R => (first.blames Q R).bind fun table done =>
    (second table (first.intact table done)).blames Q R
  intact := by
    intro next h
    obtain ⟨table, done, h⟩ := bind_eq_ok.1 h
    exact (second table (first.intact table done)).intact next h

theorem Kept.pure (intact : Intact modules symbols) : Kept modules (.ok symbols) where
  blames := fun _ _ => .ok symbols
  intact := by
    rintro _ ⟨⟩
    exact intact

theorem Kept.foldlM {α : Type} {items : List α} {step : SymbolTable → α → Except Error SymbolTable}
    (each : ∀ item ∈ items, ∀ table, Intact modules table → Kept modules (step table item))
    (intact : Intact modules symbols) : Kept modules (items.foldlM step symbols) := by
  induction items generalizing symbols with
  | nil => exact .pure intact
  | cons item rest ih =>
    obtain ⟨one, others⟩ := List.forall_mem_cons.1 each
    rw [List.foldlM_cons]
    exact (one symbols intact).bind fun table kept => ih others kept

theorem supply (intact : Intact modules symbols) (name : String) (flags : SymbolFlags)
    {target : Target} (exist : target.Exists modules symbols) :
    Kept modules (symbols.supply name flags target) where
  blames := fun _ _ => (SymbolTable.blames_add intact.wellFormed).bind fun _ _ => .ok _
  intact := by
    intro next h
    obtain ⟨⟨id, table⟩, added, done⟩ := bind_eq_ok.1 h
    cases done
    have call : symbols.register
        (.shared ⟨name, flags.union .hidden, Symbol.linkerContext, target⟩) = .ok (id, next) := added
    exact intact.register call exist

/-- An address exists in any case. -/
theorem supplyAddress (intact : Intact modules symbols) (name : String) (address : Nat) :
    Kept modules (symbols.supplyAddress name address) := by
  refine intact.supply name .empty ?_
  rintro owner ⟨⟩

/-! ## All symbols of the linker -/

variable {module : ObjectModule}

/-- A slot with a symbol leads to a record. -/
theorem registered_of_slot (intact : Intact modules symbols) (member : module ∈ modules)
    {index : UInt32} (here : module.slot index = .ok (.symbol id)) :
    ∃ kind, symbols.Registered id kind := by
  have reads := intact.slots module member
  have there := (ObjectModule.slot_eq_ok_iff).1 here
  have small : index.toNat < (symbolEntries module.bytes).length := by
    rw [← reads.size]
    exact (Array.getElem?_eq_some_iff.1 there).1
  obtain ⟨slot, here, entered⟩ := reads.entered index.toNat _ (List.getElem?_eq_getElem small)
  obtain rfl := Option.some.inj (there.symm.trans here)
  unfold SymbolTable.Entered at entered
  split at entered
  · next kind _ =>
    obtain ⟨other, same, registered⟩ := entered
    cases same
    exact ⟨kind, registered⟩
  · exact absurd rfl (entered id)

/-- An initializer calls a function that exists. -/
theorem initializerFunction (intact : Intact modules symbols) (member : module ∈ modules)
    (entry : Initializer) : (∀ Q R, Blames Q R (symbols.initializerFunction module entry)) ∧
      ∀ id, symbols.initializerFunction module entry = .ok id →
        symbols.Registered id .function := by
  unfold SymbolTable.initializerFunction
  constructor
  · intro Q R
    refine (module.blames_slot _).bind fun slot here => ?_
    split
    · obtain ⟨kind, registered⟩ := intact.registered_of_slot member here
      refine registered.blames_get.bind fun record _ => ?_
      split
      · exact .ok _
      · exact .throw (by simp)
    · exact .throw (by simp)
  · intro id h
    obtain ⟨slot, here, h⟩ := bind_eq_ok.1 h
    split at h
    · obtain ⟨record, found, h⟩ := bind_eq_ok.1 h
      split at h
      · next function =>
        cases h
        exact ⟨record, existing_eq_ok.1 found, function⟩
      · cases h
    · cases h

theorem initializerFunctions (intact : Intact modules symbols) :
    (∀ Q R, Blames Q R (symbols.initializerFunctions modules)) ∧
      ∀ functions, symbols.initializerFunctions modules = .ok functions →
        ∀ id ∈ SymbolTable.byPriority functions, symbols.Registered id .function := by
  unfold SymbolTable.initializerFunctions
  have among {item : ObjectModule × Initializer} (listed : item ∈ modules.flatMap fun module =>
      module.initializers.toList.map (module, ·)) : item.1 ∈ modules := by
    obtain ⟨module, member, listed⟩ := List.mem_flatMap.1 listed
    obtain ⟨entry, -, rfl⟩ := List.mem_map.1 listed
    exact member
  constructor
  · intro Q R
    refine Blames.mapM ?_
    rintro ⟨module, entry⟩ listed
    exact ((intact.initializerFunction (among listed) entry).1 Q R).map _
  · intro functions h id member
    obtain ⟨⟨priority, id⟩, listed, rfl⟩ := List.mem_map.1 member
    obtain ⟨place, here⟩ := List.mem_iff_getElem?.1 (List.mem_mergeSort.1 listed)
    obtain ⟨⟨module, entry⟩, there, step⟩ := exists_item_of_mapM_eq_ok h here
    obtain ⟨found, done, same⟩ := return_eq_ok.1 step
    cases same
    exact (intact.initializerFunction (among (List.mem_of_getElem? there)) entry).2 _ done

theorem supplyConstructorCaller (intact : Intact modules symbols) :
    Kept modules (symbols.supplyConstructorCaller modules) := by
  obtain ⟨blames, registered⟩ := intact.initializerFunctions
  have step (functions : List (UInt32 × SymbolId))
      (found : symbols.initializerFunctions modules = .ok functions) :
      Kept modules (symbols.supply constructorCallerName .empty
        (.function (.synthesized (.constructorCaller (SymbolTable.byPriority functions))))) :=
    intact.supply _ _ (registered functions found)
  refine ⟨fun Q R => (blames Q R).bind fun functions found => ?_, ?_⟩
  · dsimp only
    split
    · exact .ok _
    · exact (step functions found).blames Q R
  · intro next h
    obtain ⟨functions, found, h⟩ := bind_eq_ok.1 h
    dsimp only at h
    split at h
    · cases h
      exact intact
    · exact (step functions found).intact next h

/-- A reference to a function is an import of an input. -/
theorem functionImport_exists (intact : Intact modules symbols) {record : Symbol}
    {owner : ModuleId} {position : UInt32} (found : symbols.records[id]? = some record)
    (stands : record.functionImport? = some (owner, position)) :
    ∃ module, modules[owner]? = some module ∧ position.toNat < module.functionImports.size := by
  have exist := intact.targets id record found
  unfold Symbol.functionImport? at stands
  split at stands
  · next owner position target =>
    cases stands
    rw [target] at exist
    exact exist owner rfl
  · cases stands

/-- A reference to a global is an import of an input. -/
theorem globalImport_exists (intact : Intact modules symbols) {record : Symbol}
    {owner : ModuleId} {position : UInt32} (found : symbols.records[id]? = some record)
    (stands : record.globalImport? = some (owner, position)) :
    ∃ module, modules[owner]? = some module ∧ position.toNat < module.globalImports.size := by
  have exist := intact.targets id record found
  unfold Symbol.globalImport? at stands
  split at stands
  · next owner position target =>
    cases stands
    rw [target] at exist
    exact exist owner rfl
  · cases stands

/-- Stubs take the places of imports of the table that they complete. -/
theorem supplyStubs (intact : Intact modules symbols) : Kept modules symbols.supplyStubs := by
  refine .foldlM ?_ intact
  rintro ⟨name, owner, position⟩ member table kept
  refine kept.supply name .weak ?_
  obtain ⟨⟨id, record⟩, listed, stands⟩ := List.mem_filterMap.1 member
  obtain ⟨_, stands, same⟩ := Option.map_eq_some_iff.1 stands
  cases same
  have found := (intact.wellFormed.mem_symbols_iff.1 (List.mem_filter.1 listed).1).2
  exact intact.functionImport_exists found stands

theorem supplyData (intact : Intact modules symbols) (segments : List OutputSegment) :
    Kept modules (symbols.supplyData segments) := by
  refine Kept.bind (.foldlM ?_ intact) fun table kept => kept.supplyAddress _ 0
  intro segment member table kept
  exact (kept.supplyAddress _ _).bind fun started kept => kept.supplyAddress _ _

theorem complete (intact : Intact modules symbols) (layout : DataLayout) (stackTop : Nat) :
    Kept modules (symbols.complete modules layout stackTop) := by
  have functions : Kept modules (symbols.supplyFunctions modules) :=
    intact.supplyConstructorCaller.bind fun _ called => called.supplyStubs
  refine functions.bind fun _ functions => ?_
  refine (functions.supplyData layout.segments).bind fun _ data => ?_
  refine Kept.bind (data.supply _ _ ?_) fun table globals => ⟨fun Q R => ?_, ?_⟩
  · rintro owner ⟨⟩
  · split
    · exact .throw (by simp)
    · exact .ok table
  · intro next h
    split at h
    · cases h
    · cases h
      exact globals

end Intact

end StaticLink
