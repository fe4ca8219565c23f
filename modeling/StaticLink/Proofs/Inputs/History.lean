import StaticLink.Proofs.Inputs.Leads
import StaticLink.Proofs.Inputs.SharedSlots
import StaticLink.Proofs.SymbolTable.Outcomes

/-!
# What the entries of a name come to

The record of a name is what the symbols of all its entries come to, in the order of the inputs and
of their entries. Which symbols these are can be read off the entries alone.

* `SymbolEntry.Denotes`: what an entry can stand for; `Lead.Declares`: the symbol of an entry.
* `SymbolTable.Told`: every record is what the symbols of the entries for it come to.
* `sharedLeads`: the entries that go by a name for all inputs.
* `Session.addAll_history`: the record of a name in terms of these entries.
-/

namespace StaticLink

/-! ## The symbols of entries -/

/-- What an entry of input `owner` stands for, if it has a symbol. -/
inductive SymbolEntry.Denotes (owner : ModuleId) : SymbolEntry → Target → Prop
  | functionReference {flags : SymbolFlags} {index : UInt32} {name : Option String}
      (undefined : flags.contains .undefined = true) :
    Denotes owner (.function flags index name) (.function (.undefined owner index))
  | functionDefinition {flags : SymbolFlags} {index position : UInt32} {name : Option String}
      (defined : flags.contains .undefined = false) :
    Denotes owner (.function flags index name) (.function (.defined owner position))
  | globalReference {flags : SymbolFlags} {index : UInt32} {name : Option String}
      (undefined : flags.contains .undefined = true) :
    Denotes owner (.global flags index name) (.global (.undefined owner index))
  | globalDefinition {flags : SymbolFlags} {index position : UInt32} {name : Option String}
      (defined : flags.contains .undefined = false) :
    Denotes owner (.global flags index name) (.global (.defined owner position))
  | dataReference {flags : SymbolFlags} {name : String} :
    Denotes owner (.data flags name none) (.data .undefined)
  | dataDefinition {flags : SymbolFlags} {name : String} {place : DataDefinition} :
    Denotes owner (.data flags name (some place))
      (.data (.defined owner place.segment place.offset place.size))

/-- The symbol is that of the entry. -/
structure Lead.Declares (lead : Lead) (symbol : Symbol) : Prop where
  flags : symbol.flags = lead.entry.flags
  denotes : lead.entry.Denotes lead.owner symbol.target

/-- The entries that lead to symbol `id`. -/
def leadsTo (leads : List Lead) (id : SymbolId) : List Lead :=
  leads.filter fun lead => decide (lead.slot = .symbol id)

namespace ObjectModule

variable {module : ObjectModule} {owner : ModuleId} {index : UInt32} {entry : SymbolEntry}
  {name : String} {target : Target}

/-- What an entry is resolved to is something that it can stand for. -/
theorem denotes_of_resolve (h : module.resolve owner index entry = .ok (.named name target)) :
    entry.Denotes owner target := by
  cases resolve_eq_ok_iff.1 h with
  | functionReference undefined => exact .functionReference undefined
  | functionDefinition defined => exact .functionDefinition defined
  | globalReference undefined => exact .globalReference undefined
  | globalDefinition defined => exact .globalDefinition defined
  | dataReference => exact .dataReference
  | dataDefinition => exact .dataDefinition

end ObjectModule

/-! ## Records and their entries -/

namespace SymbolTable

variable {table next : SymbolTable} {known : List Lead} {lead : Lead} {id : SymbolId}
  {call : Registration}

/-- Every record is what the symbols of the entries that lead to it come to, in their order. -/
def Told (table : SymbolTable) (known : List Lead) : Prop :=
  ∀ id, ∃ symbols, List.Forall₂ Lead.Declares (leadsTo known id) symbols ∧
    settleFrom none symbols = .ok table.records[id]?

theorem told_empty : empty.Told [] := fun id => ⟨[], .nil, by simp [empty, settleFrom]; rfl⟩

theorem leadsTo_concat (known : List Lead) (lead : Lead) (id : SymbolId) :
    leadsTo (known ++ [lead]) id =
      leadsTo known id ++ if lead.slot = .symbol id then [lead] else [] := by
  unfold leadsTo
  rw [List.filter_append, List.filter_singleton]
  by_cases leads : lead.slot = .symbol id <;> simp [leads]

/-- Registering the symbol of an entry. -/
theorem Told.register (told : table.Told known) (h : table.register call = .ok (id, next))
    (leads : lead.slot = .symbol id) (declares : lead.Declares call.symbol) :
    next.Told (known ++ [lead]) := by
  intro other
  obtain ⟨symbols, declared, settled⟩ := told other
  obtain ⟨record, one, here, others⟩ := exists_settled_of_register h
  rw [leadsTo_concat, leads]
  by_cases same : other = id
  · subst same
    refine ⟨symbols ++ [call.symbol], ?_, ?_⟩
    · rw [if_pos rfl]
      exact List.rel_append declared (.cons declares .nil)
    · rw [settleFrom_concat, settled, here]
      show some <$> Symbol.settle table.records[other]? call.symbol = _
      rw [one]
      rfl
  · have apart : Slot.symbol id ≠ .symbol other := fun equal => same (Slot.symbol.inj equal).symm
    rw [if_neg apart, List.append_nil, others other same]
    exact ⟨symbols, declared, settled⟩

/-- An entry that leads to no symbol. -/
theorem Told.unnamed (told : table.Told known) (leads : ∀ id, lead.slot ≠ .symbol id) :
    table.Told (known ++ [lead]) := by
  intro id
  rw [leadsTo_concat, if_neg (leads id), List.append_nil]
  exact told id

end SymbolTable

/-! ## Inputs -/

variable {modules : List ObjectModule} {known : List Lead} {inputs : List (String × Bytes)}
  {name : String}

namespace Loader

variable {owner : ModuleId} {before after : Loading}

/-- Resolving an entry registers its symbol. -/
theorem told_resolve {index : UInt32} {entry : SymbolEntry} {slot : Slot}
    (h : resolve owner index entry before = .ok slot after) (told : before.symbols.Told known) :
    after.symbols.Told (known ++ [⟨owner, entry, slot⟩]) := by
  rcases resolve_cases h with ⟨resolved, rfl⟩ | ⟨name, target, id, resolved, rfl, -, call⟩
  · exact told.unnamed (ObjectModule.means_of_resolve resolved).2.2
  · refine told.register call rfl ?_
    rw [symbol_registration]
    exact ⟨rfl, ObjectModule.denotes_of_resolve resolved⟩

end Loader

theorem Session.addAll_told {after : Session} (h : addAll inputs .empty = .ok () after) :
    after.symbols.Told (leads inputs after.modules) :=
  addAll_leads Loader.told_resolve SymbolTable.told_empty h

/-! ## Entries by their names -/

/-- The name that an entry of an input goes by. -/
def Lead.name? (modules : List ObjectModule) (lead : Lead) : Option String :=
  (modules[lead.owner]?).bind (·.entryName? lead.entry)

/-- The entries that go by `name` for all inputs, one input after the other. -/
def sharedLeads (inputs : List (String × Bytes)) (modules : List ObjectModule) (name : String) :
    List Lead :=
  (leads inputs modules).filter fun lead =>
    !lead.entry.isLocal && decide (lead.name? modules = some name)

variable {symbols : SymbolTable} {id : SymbolId} {lead : Lead}

/-- An entry among those of all inputs, at its place in the symbol table of its input. -/
theorem exists_place_of_mem_leads (member : lead ∈ leads inputs modules) :
    ∃ (name : String) (bytes : Bytes) (module : ObjectModule) (k : Nat),
      inputs[lead.owner]? = some (name, bytes) ∧ modules[lead.owner]? = some module ∧
      (symbolEntries bytes)[k]? = some lead.entry ∧ module.slots[k]? = some lead.slot := by
  obtain ⟨⟨⟨⟨name, bytes⟩, module⟩, owner⟩, listed, among⟩ := List.mem_flatMap.1 member
  obtain ⟨⟨entry, slot⟩, paired, rfl⟩ := List.mem_map.1 among
  obtain ⟨k, here⟩ := List.mem_iff_getElem?.1 paired
  have both := List.mk_mem_zipIdx_iff_getElem?.1 listed
  rw [List.getElem?_zip_eq_some] at here both
  refine ⟨name, bytes, module, k, both.1, both.2, here.1, ?_⟩
  rw [← Array.getElem?_toList, here.2]

/-- The entry of each input is held by its slot. -/
theorem Slotted.holds_of_mem_leads (slotted : Slotted inputs modules symbols)
    (member : lead ∈ leads inputs modules) : ∃ module, modules[lead.owner]? = some module ∧
      symbols.Holds module lead.entry lead.slot := by
  obtain ⟨name, bytes, module, k, file, input, here, there⟩ := exists_place_of_mem_leads member
  refine ⟨module, input, ?_⟩
  exact getElem?_of_forall₂ (slotted.holds lead.owner name bytes module file input) here
    (by rw [Array.getElem?_toList, there])

/-- An entry that goes by a name for all inputs leads to the symbol of this name. -/
theorem SymbolTable.Holds.slot_of_name? {module : ObjectModule} {entry : SymbolEntry} {slot : Slot}
    (holds : symbols.Holds module entry slot) (visible : entry.isLocal = false)
    (named : module.entryName? entry = some name) :
    ∃ id, symbols.lookup name = some id ∧ slot = .symbol id := by
  cases holds with
  | symbol name' kind flags place binds =>
    have holds := SymbolTable.Holds.symbol name' kind flags place binds
    obtain ⟨called, goes, known⟩ := holds.lookup visible
    cases goes.symm.trans named
    exact ⟨_, known, rfl⟩
  | wholeSection | table => cases named

theorem Slotted.slot_of_name? (slotted : Slotted inputs modules symbols)
    (member : lead ∈ leads inputs modules) (visible : lead.entry.isLocal = false)
    (named : lead.name? modules = some name) :
    ∃ id, symbols.lookup name = some id ∧ lead.slot = .symbol id := by
  obtain ⟨module, input, holds⟩ := slotted.holds_of_mem_leads member
  rw [Lead.name?, input, Option.bind_some] at named
  exact holds.slot_of_name? visible named

/-- The entries that go by a name are those that lead to its symbol. -/
theorem Slotted.sharedLeads_eq (slotted : Slotted inputs modules symbols) (wf : symbols.WellFormed)
    (known : symbols.lookup name = some id) :
    sharedLeads inputs modules name = leadsTo (leads inputs modules) id := by
  refine List.filter_congr fun lead member => ?_
  rw [Bool.eq_iff_iff, Bool.and_eq_true, Bool.not_eq_true', decide_eq_true_iff, decide_eq_true_iff]
  constructor
  · rintro ⟨visible, named⟩
    obtain ⟨other, known', slot⟩ := slotted.slot_of_name? member visible named
    cases known.symm.trans known'
    exact slot
  · intro slot
    obtain ⟨module, input, holds⟩ := slotted.holds_of_mem_leads member
    rw [slot] at holds
    have visible : lead.entry.isLocal = false :=
      eq_false_of_ne_true fun hidden => (holds.own hidden).1 name known
    obtain ⟨called, goes, known'⟩ := holds.lookup visible
    rw [Lead.name?, input, Option.bind_some, goes, wf.lookup_injective known' known]
    exact ⟨visible, rfl⟩

theorem Slotted.sharedLeads_eq_nil (slotted : Slotted inputs modules symbols)
    (unknown : symbols.lookup name = none) : sharedLeads inputs modules name = [] := by
  refine List.filter_eq_nil_iff.2 fun lead member both => ?_
  obtain ⟨visible, named⟩ := Bool.and_eq_true_iff.1 both
  obtain ⟨id, known, -⟩ := slotted.slot_of_name? member (by simpa using visible)
    (of_decide_eq_true named)
  rw [unknown] at known
  cases known

/-- The record of a name is what the symbols of its entries come to. -/
theorem Session.addAll_history {after : Session} (h : addAll inputs .empty = .ok () after)
    (name : String) :
    ∃ symbols, List.Forall₂ Lead.Declares (sharedLeads inputs after.modules name) symbols ∧
      settleFrom none symbols = .ok (after.symbols.record? name) := by
  obtain ⟨sound, slotted⟩ := addAll_slotted h
  have wf := (sound.registered.later SymbolTable.wellFormed_empty).1
  rcases known : after.symbols.lookup name with _ | id
  · rw [slotted.sharedLeads_eq_nil known, SymbolTable.record?_of_lookup_eq_none known]
    exact ⟨[], .nil, rfl⟩
  · rw [slotted.sharedLeads_eq wf known, SymbolTable.record?, known, Option.bind_some]
    exact addAll_told h id

end StaticLink
