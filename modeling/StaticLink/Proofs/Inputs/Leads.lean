import StaticLink.Proofs.Inputs.Program
import StaticLink.Proofs.SymbolTable.References

/-!
# The first reference to a symbol

Entries of several inputs can lead to one symbol. As long as nothing defines it, the symbol stands
for what the first of these entries refers to, and the others do not matter.

* `Lead`: an entry of an input, with what it leads to; `leads`: all of them in order.
* `Session.addAll_leads`: what one more entry keeps holds of all entries of the inputs.
* `SymbolEntry.reference?`: what an entry refers to.
* `SymbolTable.LedBy`: references have the targets of the first entries that lead to them.
* `Program.ledBy_of_ofInputs`: it holds of the program of some inputs.
-/

namespace StaticLink

/-- What an entry of input `owner` refers to, if it defines nothing. -/
def SymbolEntry.reference? (owner : ModuleId) : SymbolEntry → Option Target
  | .function flags index _ =>
    if flags.contains .undefined then some (.function (.undefined owner index)) else none
  | .global flags index _ =>
    if flags.contains .undefined then some (.global (.undefined owner index)) else none
  | .data _ _ none => some (.data .undefined)
  | _ => none

/-- An entry of the symbol table of input `owner`, and what it leads to. -/
structure Lead where
  owner : ModuleId
  entry : SymbolEntry
  slot : Slot
deriving DecidableEq, Repr

/-- The entries of one input. -/
def leadsOf (owner : ModuleId) (entries : List SymbolEntry) (slots : List Slot) : List Lead :=
  (entries.zip slots).map fun (entry, slot) => ⟨owner, entry, slot⟩

/-- The entries of all inputs, one input after the other. -/
def leads (inputs : List (String × Bytes)) (modules : List ObjectModule) : List Lead :=
  (inputs.zip modules).zipIdx.flatMap fun ((input, module), owner) =>
    leadsOf owner (symbolEntries input.2) module.slots.toList

/-- The first entry that leads to symbol `id`. -/
def firstLead? (leads : List Lead) (id : SymbolId) : Option Lead :=
  leads.find? fun lead => decide (lead.slot = .symbol id)

theorem leadsOf_concat {owner : ModuleId} {entries : List SymbolEntry} {slots : List Slot}
    (size : entries.length = slots.length) (entry : SymbolEntry) (slot : Slot) :
    leadsOf owner (entries ++ [entry]) (slots ++ [slot]) =
      leadsOf owner entries slots ++ [⟨owner, entry, slot⟩] := by
  unfold leadsOf
  rw [List.zip_append size, List.map_append]
  rfl

theorem leads_concat {inputs : List (String × Bytes)} {modules : List ObjectModule}
    (size : inputs.length = modules.length) (input : String × Bytes) (module : ObjectModule) :
    leads (inputs ++ [input]) (modules ++ [module]) =
      leads inputs modules ++
        leadsOf modules.length (symbolEntries input.2) module.slots.toList := by
  unfold leads
  rw [List.zip_append size, List.zipIdx_append, List.flatMap_append, List.length_zip, size,
    Nat.min_self]
  simp

/-! ## Entries so far -/

section

/- What holds of the symbols and the entries that lead to them, and goes on to hold when one more
entry is resolved. -/
variable {P : SymbolTable → List Lead → Prop}
  (keeps : ∀ {owner index entry slot before after known},
    Loader.resolve owner index entry before = .ok slot after → P before.symbols known →
    P after.symbols (known ++ [⟨owner, entry, slot⟩]))

include keeps

variable {modules : List ObjectModule} {start : SymbolTable} {known : List Lead}

/-- Every event keeps it of the entries of the input, behind those of the inputs before it. -/
theorem Loader.leads_note {seen : List Event} {event : Event} {before after : Loading}
    (h : note modules.length event before = .ok () after) (wf : start.WellFormed)
    (sound : before.Sound modules start seen)
    (holds : P before.symbols
      (known ++ leadsOf modules.length (entriesOf seen) before.module.slots.toList)) :
    P after.symbols
      (known ++ leadsOf modules.length (entriesOf (seen ++ [event])) after.module.slots.toList) := by
  rcases note_cases h with ⟨index, entry, slot, middle, rfl, one, rfl⟩ | other
  · have resolved := resolve_eq_ok one rfl (sound.registered.later wf).1
    have size : (entriesOf seen).length = before.module.slots.toList.length := by
      rw [← sound.reads.size, Array.length_toList]
    show P middle.symbols (_ ++ leadsOf _ _ (middle.module.slots.push slot).toList)
    rw [entriesOf_append_symbol, Array.toList_push, resolved.slots, leadsOf_concat size,
      ← List.append_assoc]
    exact keeps one holds
  · obtain ⟨symbols, slots, -⟩ := note_other h other
    rw [symbols, slots, entriesOf_append_other seen other]
    exact holds

/-- Loading an input puts its entries behind those of the inputs before it. -/
theorem ObjectModule.load_leads {symbols : SymbolTable} {name : String} {bytes : Bytes}
    {module : ObjectModule} (wf : start.WellFormed) (holds : P start known)
    (h : ObjectModule.load modules.length name bytes start = .ok module symbols) :
    P symbols (known ++ leadsOf modules.length (symbolEntries bytes) module.slots.toList) := by
  obtain ⟨-, last, events, rfl, rfl⟩ := load_run h
  have none : P start (known ++ leadsOf modules.length (entriesOf []) []) := by
    rw [leadsOf, entriesOf, List.filterMap_nil, List.zip_nil_left, List.map_nil, List.append_nil]
    exact holds
  have both : last.Sound modules start ([] ++ (Transcript.ofBytes bytes).events) ∧
      P last.symbols (known ++ leadsOf modules.length
        (entriesOf ([] ++ (Transcript.ofBytes bytes).events)) last.module.slots.toList) := by
    refine forM_keeps (fun seen loading => loading.Sound modules start seen ∧
      P loading.symbols (known ++ leadsOf modules.length (entriesOf seen)
        loading.module.slots.toList)) events ?_ ⟨.init modules start name bytes, none⟩
    rintro seen event before after step ⟨sound, holds⟩
    exact ⟨sound.note wf step, Loader.leads_note keeps step wf sound holds⟩
  exact both.2

/-- It holds of a session with all entries of its inputs. -/
theorem Session.addAll_leads {inputs : List (String × Bytes)} {after : Session}
    (none : P .empty []) (h : addAll inputs .empty = .ok () after) :
    P after.symbols (leads inputs after.modules) := by
  have both : Session.Sound ([] ++ inputs) after ∧
      P after.symbols (leads ([] ++ inputs) after.modules) := by
    refine forM_keeps (fun seen session => Session.Sound seen session ∧
      P session.symbols (leads seen session.modules)) h ?_ ⟨sound_empty, none⟩
    rintro seen ⟨name, bytes⟩ before after step ⟨sound, holds⟩
    refine ⟨sound.add step, ?_⟩
    have wf := (sound.registered.later SymbolTable.wellFormed_empty).1
    obtain ⟨module, loaded, modules⟩ := add_eq_ok step
    rw [modules, leads_concat sound.size.symm]
    exact ObjectModule.load_leads keeps wf holds loaded
  exact both.2

end

/-! ## References -/

/-- What has the target of a reference stands for an entry that refers to it. -/
theorem ObjectModule.reference?_of_resolve {module : ObjectModule} {owner : ModuleId}
    {index : UInt32} {entry : SymbolEntry} {name : String} {target : Target}
    (h : module.resolve owner index entry = .ok (.named name target))
    (undefined : target.isUndefined = true) : entry.reference? owner = some target := by
  cases resolve_eq_ok_iff.1 h with
  | functionReference reference | globalReference reference => exact if_pos reference
  | dataReference => rfl
  | functionDefinition | globalDefinition | dataDefinition => cases undefined

namespace SymbolTable

variable {table next : SymbolTable} {known : List Lead} {lead : Lead} {id : SymbolId}
  {call : Registration}

/-- What these entries lead to is in the table, and a reference has the target of the first entry
that leads to it. -/
structure LedBy (table : SymbolTable) (known : List Lead) : Prop where
  inside : ∀ lead ∈ known, ∀ id, lead.slot = .symbol id → id < table.records.size
  first : ∀ id record, table.records[id]? = some record → record.isUndefined = true →
    ∃ lead, firstLead? known id = some lead ∧
      lead.entry.reference? lead.owner = some record.target

theorem ledBy_empty : empty.LedBy [] where
  inside := by simp
  first := by simp [empty]

/-- An entry that comes after the first one for a symbol is not the first one. -/
theorem firstLead?_append {first : Lead} (here : firstLead? known id = some first)
    (more : List Lead) : firstLead? (known ++ more) id = some first := by
  unfold firstLead? at *
  rw [List.find?_append, here]
  rfl

/-- The first entry for a symbol that is new. -/
theorem LedBy.firstLead?_new (led : table.LedBy known)
    (leads : lead.slot = .symbol table.records.size) :
    firstLead? (known ++ [lead]) table.records.size = some lead := by
  have none : firstLead? known table.records.size = none := by
    refine List.find?_eq_none.2 fun other member same => ?_
    exact Nat.lt_irrefl _ (led.inside other member _ (of_decide_eq_true same))
  unfold firstLead? at *
  rw [List.find?_append, none, List.find?_cons_of_pos (by simpa using leads)]
  rfl

/-- An entry that leads to no new reference. -/
theorem LedBy.concat (led : table.LedBy known) (size : table.records.size ≤ next.records.size)
    (inside : ∀ id, lead.slot = .symbol id → id < next.records.size)
    (old : ∀ id record, next.records[id]? = some record → record.isUndefined = true →
      (∃ before, table.records[id]? = some before ∧ before.isUndefined = true ∧
        before.target = record.target) ∨
      firstLead? (known ++ [lead]) id = some lead ∧
        lead.entry.reference? lead.owner = some record.target) :
    next.LedBy (known ++ [lead]) where
  inside := by
    intro other member id leads
    rcases List.mem_append.1 member with member | member
    · exact Nat.lt_of_lt_of_le (led.inside other member id leads) size
    · rw [List.mem_singleton.1 member] at leads
      exact inside id leads
  first := by
    intro id record found undefined
    rcases old id record found undefined with ⟨before, stands, reference, same⟩ | ⟨first, refers⟩
    · obtain ⟨first, here, refers⟩ := led.first id before stands reference
      exact ⟨first, firstLead?_append here [lead], by rw [refers, same]⟩
    · exact ⟨lead, first, refers⟩

/-- A new record at the end of the table has the entry that it was made for. -/
theorem LedBy.push {symbol : Symbol} (led : table.LedBy known)
    (records : next.records = table.records.push symbol)
    (leads : lead.slot = .symbol table.records.size)
    (refers : symbol.isUndefined = true →
      lead.entry.reference? lead.owner = some symbol.target) :
    next.LedBy (known ++ [lead]) := by
  have size : next.records.size = table.records.size + 1 := by rw [records, Array.size_push]
  refine led.concat (by rw [size]; exact Nat.le_succ _) (fun id same => ?_)
    (fun id record found undefined => ?_)
  · rw [leads] at same
    rw [← Slot.symbol.inj same, size]
    exact Nat.lt_succ_self _
  · rw [records, Array.getElem?_push] at found
    split at found
    · next last =>
      cases found
      rw [last]
      exact .inr ⟨led.firstLead?_new leads, refers undefined⟩
    · exact .inl ⟨record, found, undefined, rfl⟩

/-- Registering what an entry names. -/
theorem LedBy.register (led : table.LedBy known) (h : table.register call = .ok (id, next))
    (leads : lead.slot = .symbol id)
    (refers : call.symbol.isUndefined = true →
      lead.entry.reference? lead.owner = some call.symbol.target) :
    next.LedBy (known ++ [lead]) := by
  cases call with
  | own symbol =>
    cases h
    exact led.push (records_addLocal table symbol) leads refers
  | shared symbol =>
    have standing {existing : Symbol} (found : table.records[id]? = some existing)
        (size : next.records.size = table.records.size) :
        ∀ other, lead.slot = .symbol other → other < next.records.size := by
      intro other same
      rw [leads] at same
      cases same
      rw [size]
      exact lt_size_of_getElem? found
    cases adds_of_add_eq_ok h with
    | introduced => exact led.push (records_introduce table symbol) leads refers
    | kept _ found _ =>
      refine led.concat (Nat.le_refl _) (standing found rfl) ?_
      exact fun other record stands undefined => .inl ⟨record, stands, undefined, rfl⟩
    | @strengthened _ existing _ found merged =>
      obtain ⟨-, -, undefined, -⟩ := Symbol.merge_eq_strengthen_iff.1 merged
      have size : (table.replace id existing.strengthened).records.size = table.records.size :=
        Array.size_setIfInBounds ..
      refine led.concat (Nat.le_of_eq size.symm) (standing found size) ?_
      intro other record stands reference
      rcases getElem?_setIfInBounds_cases stands with old | ⟨rfl, rfl⟩
      · exact .inl ⟨record, old, reference, rfl⟩
      · exact .inl ⟨existing, found, undefined, rfl⟩
    | @replaced _ existing _ found merged =>
      obtain ⟨-, defined, -⟩ := Symbol.merge_eq_replace_iff.1 merged
      have size : (table.resolve id symbol).records.size = table.records.size := by simp
      refine led.concat (Nat.le_of_eq size.symm) (standing found size) ?_
      intro other record stands reference
      rw [records_resolve] at stands
      rcases getElem?_setIfInBounds_cases stands with old | ⟨-, rfl⟩
      · exact .inl ⟨record, old, reference, rfl⟩
      · rw [defined] at reference
        cases reference

/-- An entry that leads to no symbol. -/
theorem LedBy.unnamed (led : table.LedBy known) (leads : ∀ id, lead.slot ≠ .symbol id) :
    table.LedBy (known ++ [lead]) := by
  refine led.concat (Nat.le_refl _) (fun id same => absurd same (leads id)) ?_
  exact fun id record found undefined => .inl ⟨record, found, undefined, rfl⟩

/-- What the linker adds changes no reference. -/
theorem LedBy.supplied (led : table.LedBy known) (wf : table.WellFormed)
    (reached : ReachedBy Supplied table next) : next.LedBy known where
  inside := fun lead member id leads =>
    Nat.lt_of_lt_of_le (led.inside lead member id leads) (reached.later wf).2.size_le
  first := fun id record found undefined =>
    led.first id record (reference_of_supplied reached found undefined) undefined

end SymbolTable

/-! ## Inputs -/

variable {known : List Lead} {inputs : List (String × Bytes)}

namespace Loader

variable {owner : ModuleId} {before after : Loading}

/-- Resolving an entry puts it behind those before it. -/
theorem ledBy_resolve {index : UInt32} {entry : SymbolEntry} {slot : Slot}
    (h : resolve owner index entry before = .ok slot after) (led : before.symbols.LedBy known) :
    after.symbols.LedBy (known ++ [⟨owner, entry, slot⟩]) := by
  rcases resolve_cases h with ⟨resolved, rfl⟩ | ⟨name, target, id, resolved, rfl, -, call⟩
  · exact led.unnamed (ObjectModule.means_of_resolve resolved).2.2
  · refine led.register call rfl fun undefined => ?_
    rw [symbol_registration] at undefined ⊢
    exact ObjectModule.reference?_of_resolve resolved undefined

end Loader

/-- The references of a session have the targets of the first entries that lead to them. -/
theorem Session.addAll_ledBy {after : Session} (h : addAll inputs .empty = .ok () after) :
    after.symbols.LedBy (leads inputs after.modules) :=
  addAll_leads Loader.ledBy_resolve SymbolTable.ledBy_empty h

/-- The references of a program have the targets of the first entries that lead to them. -/
theorem Program.ledBy_of_ofInputs {options : Options} {program : Program}
    (h : ofInputs inputs options = .ok program) :
    program.symbols.LedBy (leads inputs program.modules) := by
  obtain ⟨session, added, decided⟩ := decided_of_ofInputs h
  have wf := ((Session.addAll_sound added).registered.later SymbolTable.wellFormed_empty).1
  rw [← decided.modules]
  exact (Session.addAll_ledBy added).supplied wf (SymbolTable.reached_of_complete decided.symbols)

end StaticLink
