import StaticLink.Proofs.Inputs.History

/-!
# Names that an input defines strongly

A strong definition takes the place of a weak one, unless the two are of the same bytes of the same
input: then it is taken for the weak one, which stays. What becomes of a name that the linker
supplies, too, depends on this.

* `SymbolEntry.isDefinition`, `SymbolEntry.isStrongDefinition`: what entries define.
* `TakenForWeak`: the strong definitions among some entries are taken for the first one, a weak one.
* `Session.sharedLeads_of_weaker`: what the entries of a name are whose record is no strong definition
  of data.
-/

namespace StaticLink

namespace SymbolEntry

/-- Whether the entry defines what its symbol stands for. -/
def isDefinition : SymbolEntry → Bool
  | function flags _ _ | global flags _ _ => !flags.contains .undefined
  | data _ _ place => place.isSome
  | _ => false

/-- Whether no other definition takes precedence over that of the entry. -/
def isStrongDefinition (entry : SymbolEntry) : Bool :=
  entry.isDefinition && !entry.flags.contains .weak

/-- The bytes that the entry is for. -/
def place? : SymbolEntry → Option DataDefinition
  | data _ _ place => place
  | _ => none

end SymbolEntry

/-- The first definition among the entries is weak, and all strong ones are of the same input and the
same bytes. -/
def TakenForWeak (leads : List Lead) : Prop :=
  ∃ first ∈ leads.find? (·.entry.isDefinition), first.entry.flags.contains .weak = true ∧
    ∀ strong ∈ leads, strong.entry.isStrongDefinition = true →
      strong.owner = first.owner ∧ strong.entry.place? = first.entry.place?

instance (leads : List Lead) : Decidable (TakenForWeak leads) :=
  Option.decidableExistsMem (p := fun first : Lead => first.entry.flags.contains .weak = true ∧
    ∀ strong ∈ leads, strong.entry.isStrongDefinition = true →
      strong.owner = first.owner ∧ strong.entry.place? = first.entry.place?)
    (leads.find? (·.entry.isDefinition))

variable {inputs : List (String × Bytes)} {name : String} {lead other : Lead} {leads : List Lead}
  {symbol twin : Symbol} {symbols : List Symbol} {session : Session}

/-! ## Entries and their symbols -/

namespace Lead.Declares

theorem targetKind? (declares : lead.Declares symbol) :
    lead.entry.targetKind? = some symbol.target.kind := by
  obtain ⟨-, denotes⟩ := declares
  generalize lead.owner = owner, lead.entry = entry, symbol.target = target at denotes
  cases denotes <;> rfl

theorem isDefinition (declares : lead.Declares symbol) :
    symbol.isDefinition = lead.entry.isDefinition := by
  obtain ⟨-, denotes⟩ := declares
  rw [Symbol.isDefinition, Symbol.isUndefined]
  generalize lead.owner = owner, lead.entry = entry, symbol.target = target at denotes
  cases denotes <;> simp_all [SymbolEntry.isDefinition, Target.isUndefined]

theorem isWeak (declares : lead.Declares symbol) :
    symbol.isWeak = lead.entry.flags.contains .weak := by
  rw [Symbol.isWeak, declares.flags]

theorem isStrongDefinition (declares : lead.Declares symbol) :
    symbol.isStrongDefinition = lead.entry.isStrongDefinition := by
  rw [Symbol.isStrongDefinition, declares.isDefinition, declares.isWeak]
  rfl

/-- Definitions of data with one target are of the same bytes. -/
theorem place?_eq (declares : lead.Declares symbol) (declares' : other.Declares twin)
    (data : symbol.target.kind = .data) (defined : symbol.isDefinition = true)
    (same : symbol.target = twin.target) :
    lead.owner = other.owner ∧ lead.entry.place? = other.entry.place? := by
  obtain ⟨-, denotes⟩ := declares
  obtain ⟨-, denotes'⟩ := declares'
  rw [← same] at denotes'
  rw [Symbol.isDefinition, Symbol.isUndefined] at defined
  generalize lead.owner = owner, lead.entry = entry, symbol.target = target at *
  generalize other.owner = owner', other.entry = entry' at *
  cases denotes with
  | functionReference | functionDefinition | globalReference | globalDefinition => cases data
  | dataReference => cases defined
  | @dataDefinition _ _ place =>
    obtain ⟨segment, offset, size⟩ := place
    generalize target' : Target.data _ = target at denotes'
    cases denotes' with
    | functionReference | functionDefinition | globalReference | globalDefinition => cases target'
    | dataReference => cases target'
    | @dataDefinition _ _ place' =>
      obtain ⟨segment', offset', size'⟩ := place'
      cases target'
      exact ⟨rfl, rfl⟩

end Lead.Declares

/-- The first definition is that of the first entry which is one. -/
theorem exists_lead_of_find? (declared : List.Forall₂ Lead.Declares leads symbols)
    (found : symbols.find? (·.isDefinition) = some symbol) :
    ∃ lead, leads.find? (·.entry.isDefinition) = some lead ∧ lead.Declares symbol := by
  induction declared with
  | nil => cases found
  | @cons first record leads symbols one _ ih =>
    rw [List.find?_cons] at found ⊢
    rw [← one.isDefinition]
    rcases defined : record.isDefinition
    · rw [defined] at found
      exact ih found
    · rw [defined] at found
      cases found
      exact ⟨first, rfl, one⟩

theorem exists_symbol_of_mem (declared : List.Forall₂ Lead.Declares leads symbols)
    (member : lead ∈ leads) : ∃ symbol ∈ symbols, lead.Declares symbol := by
  obtain ⟨place, here⟩ := List.mem_iff_getElem?.1 member
  obtain ⟨symbol, there, declares⟩ := exists_of_forall₂ declared here
  exact ⟨symbol, List.mem_of_getElem? there, declares⟩

/-- Strong definitions of data that are not told from a weak one are of its bytes. -/
theorem takenForWeak_of_shadowed (declared : List.Forall₂ Lead.Declares leads symbols)
    (data : ∀ symbol ∈ symbols, symbol.target.kind = .data) (shadowed : Shadowed symbols) :
    TakenForWeak leads := by
  obtain ⟨first, found, weak, all⟩ := shadowed
  obtain ⟨earliest, here, declares⟩ := exists_lead_of_find? declared found
  refine ⟨earliest, here, declares.isWeak.symm.trans weak, fun lead member strong => ?_⟩
  obtain ⟨symbol, listed, declares'⟩ := exists_symbol_of_mem declared member
  have strong' := declares'.isStrongDefinition.trans strong
  exact declares'.place?_eq declares (data symbol listed) (Bool.and_eq_true_iff.1 strong').1
    (all symbol listed strong')

/-! ## All entries of a name -/

/-- Where the record of a name is data, and no strong definition of it, all entries of the name are
data, and any strong definition was taken for a weak one. -/
theorem Session.sharedLeads_of_weaker (added : addAll inputs .empty = .ok () session)
    (weaker : ∀ record, session.symbols.record? name = some record →
      record.target.kind = .data ∧ record.isStrongDefinition = false)
    (member : lead ∈ sharedLeads inputs session.modules name) :
    lead.entry.targetKind? = some .data ∧
      (lead.entry.isStrongDefinition = true →
        TakenForWeak (sharedLeads inputs session.modules name)) := by
  obtain ⟨symbols, declared, settled⟩ := addAll_history added name
  obtain ⟨symbol, listed, declares⟩ := exists_symbol_of_mem declared member
  obtain ⟨record, standing⟩ := exists_record_of_settleFrom settled (List.ne_nil_of_mem listed)
  rw [standing] at settled
  obtain ⟨kind, noStrong⟩ := weaker record standing
  have data : ∀ symbol ∈ symbols, symbol.target.kind = .data := fun symbol listed =>
    ((tolerates_of_settleFrom settled).kind symbol listed).trans kind
  refine ⟨by rw [declares.targetKind?, data symbol listed], fun strong => ?_⟩
  by_contra apart
  have strong' := declares.isStrongDefinition.trans strong
  have told := (isStrongDefinition_of_settleFrom settled).2 ⟨⟨symbol, listed, strong'⟩,
    fun shadowed => apart (takenForWeak_of_shadowed declared data shadowed)⟩
  rw [noStrong] at told
  cases told

end StaticLink
