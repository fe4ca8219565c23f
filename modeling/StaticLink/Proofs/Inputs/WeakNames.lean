import StaticLink.Proofs.Inputs.History
import StaticLink.Proofs.Inputs.Intact
import StaticLink.Proofs.SymbolTable.Supply

/-!
# Names that are only weakly referred to

Whether the linker supplies a stub for a name depends on all entries that go by it, in all inputs:
one strong reference or one definition is enough, and the name has none.

* `OnlyWeakly`: all entries of a name are weak references to a function.
* `FirstRefers`: the first of them, with the import that it names.
* `Session.onlyWeakly_iff`: in the table of the inputs such a name has a weak reference for a record.
* `Session.exists_stub_of_complete`, `Session.onlyWeakly_of_stub`: in the complete table such a name
  has a stub, and no other name has.
-/

namespace StaticLink

/-- Whether the entry refers to a function weakly. -/
def SymbolEntry.isWeakFunction : SymbolEntry → Bool
  | .function flags _ _ => flags.contains .undefined && flags.contains .weak
  | _ => false

/-- There are entries that go by `name` for all inputs, and they are all weak references to a
function. -/
def OnlyWeakly (inputs : List (String × Bytes)) (modules : List ObjectModule) (name : String) :
    Prop :=
  sharedLeads inputs modules name ≠ [] ∧
    ∀ lead ∈ sharedLeads inputs modules name, lead.entry.isWeakFunction = true

instance (inputs : List (String × Bytes)) (modules : List ObjectModule) (name : String) :
    Decidable (OnlyWeakly inputs modules name) :=
  inferInstanceAs (Decidable (_ ∧ _))

/-- The first entry that goes by `name` for all inputs is that of input `owner` for the import of a
function at `position`. -/
def FirstRefers (inputs : List (String × Bytes)) (modules : List ObjectModule) (name : String)
    (owner : ModuleId) (position : UInt32) : Prop :=
  ∃ flags given slot rest,
    sharedLeads inputs modules name = ⟨owner, .function flags position given, slot⟩ :: rest

variable {inputs : List (String × Bytes)} {modules : List ObjectModule} {name : String}
  {lead : Lead} {leads : List Lead} {symbol record : Symbol} {symbols : List Symbol}
  {owner : ModuleId} {position : UInt32} {id : SymbolId} {session : Session} {next : SymbolTable}
  {layout : DataLayout} {stackTop : Nat}

/-! ## Entries and their symbols -/

theorem Lead.Declares.isWeakFunction_iff (declares : lead.Declares symbol) :
    lead.entry.isWeakFunction = true ↔ symbol.isWeak = true ∧ symbol.isUndefined = true ∧
      symbol.target.kind = .function := by
  obtain ⟨flags, denotes⟩ := declares
  rw [Symbol.isWeak, Symbol.isUndefined, flags]
  generalize lead.owner = owner, lead.entry = entry, symbol.target = target at denotes
  cases denotes with
  | functionReference undefined =>
    simp [SymbolEntry.isWeakFunction, SymbolEntry.flags, undefined, Target.isUndefined, Target.kind]
  | functionDefinition defined =>
    simp [SymbolEntry.isWeakFunction, defined, Target.isUndefined]
  | globalReference | globalDefinition | dataReference | dataDefinition =>
    simp [SymbolEntry.isWeakFunction, Target.kind]

theorem forall_isWeakFunction_iff (declared : List.Forall₂ Lead.Declares leads symbols) :
    (∀ lead ∈ leads, lead.entry.isWeakFunction = true) ↔
      ∀ symbol ∈ symbols, symbol.isWeak = true ∧ symbol.isUndefined = true ∧
        symbol.target.kind = .function := by
  induction declared with
  | nil => simp
  | cons one _ ih => rw [List.forall_mem_cons, List.forall_mem_cons, ih, one.isWeakFunction_iff]

theorem exists_position_of_kind {target : Target} (undefined : target.isUndefined = true)
    (kind : target.kind = .function) :
    ∃ owner position, target = .function (.undefined owner position) := by
  rcases target with (_ | ⟨owner, position⟩ | _) | _ | _
  · cases undefined
  · exact ⟨owner, position, rfl⟩
  · cases undefined
  · cases kind
  · cases kind

namespace Session

/-! ## The table of the inputs -/

/-- The record of a name is a weak reference to a function exactly if all entries are. -/
theorem onlyWeakly_iff (added : addAll inputs .empty = .ok () session) :
    OnlyWeakly inputs session.modules name ↔ ∃ record owner position,
      session.symbols.record? name = some record ∧ record.isWeak = true ∧
        record.target = .function (.undefined owner position) := by
  obtain ⟨symbols, declared, settled⟩ := addAll_history added name
  rw [OnlyWeakly, forall_isWeakFunction_iff declared]
  constructor
  · rintro ⟨any, all⟩
    have any : symbols ≠ [] := by
      rintro rfl
      exact any (List.forall₂_nil_right_iff.1 declared)
    obtain ⟨record, standing⟩ := exists_record_of_settleFrom settled any
    rw [standing] at settled
    have refers := refers_of_settleFrom settled
    have undefined : record.isUndefined = true := by
      rw [refers.undefined, List.all_eq_true]
      exact fun symbol member => (all symbol member).2.1
    have weak : record.isWeak = true := by
      rw [refers.weak undefined, List.all_eq_true]
      exact fun symbol member => (all symbol member).1
    obtain ⟨first, head, same⟩ := Option.map_eq_some_iff.1 (refers.target undefined)
    have kind : record.target.kind = .function := by
      rw [← same]
      exact (all first (List.mem_of_head? head)).2.2
    obtain ⟨owner, position, target⟩ := exists_position_of_kind undefined kind
    exact ⟨record, owner, position, standing, weak, target⟩
  · rintro ⟨record, owner, position, standing, weak, target⟩
    rw [standing] at settled
    have refers := refers_of_settleFrom settled
    have undefined : record.isUndefined = true := by
      rw [Symbol.isUndefined, target]
      rfl
    have allUndefined := refers.undefined.symm.trans undefined
    have allWeak := (refers.weak undefined).symm.trans weak
    rw [List.all_eq_true] at allUndefined allWeak
    refine ⟨?_, fun symbol member => ⟨allWeak symbol member, allUndefined symbol member, ?_⟩⟩
    · intro none
      rw [none, List.forall₂_nil_left_iff] at declared
      rw [declared] at settled
      cases settled
    · rw [(tolerates_of_settleFrom settled).kind symbol member, target]
      rfl

/-- A reference that nothing satisfies is for the import that the first entry names. -/
theorem firstRefers_of_record (added : addAll inputs .empty = .ok () session)
    (standing : session.symbols.record? name = some record)
    (target : record.target = .function (.undefined owner position)) :
    FirstRefers inputs session.modules name owner position := by
  obtain ⟨symbols, declared, settled⟩ := addAll_history added name
  rw [standing] at settled
  have undefined : record.isUndefined = true := by
    rw [Symbol.isUndefined, target]
    rfl
  obtain ⟨first, head, same⟩ :=
    Option.map_eq_some_iff.1 ((refers_of_settleFrom settled).target undefined)
  obtain ⟨others, rfl⟩ := List.head?_eq_some_iff.1 head
  obtain ⟨⟨source, entry, slot⟩, rest, ⟨-, denotes⟩, -, listed⟩ :=
    List.forall₂_cons_right_iff.1 declared
  rw [same, target] at denotes
  cases denotes
  exact ⟨_, _, slot, rest, listed⟩

/-- No input has a record that only the linker makes. -/
theorem given_of_record? (added : addAll inputs .empty = .ok () session)
    (standing : session.symbols.record? name = some record) :
    record.target.isSynthesized = false := by
  obtain ⟨id, -, found⟩ := Option.bind_eq_some_iff.1 standing
  exact (addAll_whole added).given.targets (by simp [SymbolTable.empty]) id record found

/-! ## The complete table -/

/-- A name that is only weakly referred to comes to a stub for its first reference. -/
theorem exists_stub_of_complete (added : addAll inputs .empty = .ok () session)
    (completed : session.symbols.complete modules layout stackTop = .ok next)
    (other : name ≠ constructorCallerName) (weakly : OnlyWeakly inputs session.modules name) :
    ∃ owner position, next.record? name = some (SymbolTable.stubRecord name owner position) ∧
      FirstRefers inputs session.modules name owner position := by
  have wf := (addAll_intact added).wellFormed
  obtain ⟨record, owner, position, standing, weak, target⟩ := (onlyWeakly_iff added).1 weakly
  exact ⟨owner, position,
    SymbolTable.record?_stub_of_complete wf completed other standing weak target,
    firstRefers_of_record added standing target⟩

/-- A stub is that of a name that is only weakly referred to. -/
theorem onlyWeakly_of_stub (added : addAll inputs .empty = .ok () session)
    (completed : session.symbols.complete modules layout stackTop = .ok next)
    (standing : next.record? name = some record)
    (target : record.target = .function (.synthesized (.trapStub owner position))) :
    name ≠ constructorCallerName ∧ OnlyWeakly inputs session.modules name := by
  have wf := (addAll_intact added).wellFormed
  obtain ⟨other, before, known, weak, reference⟩ :=
    SymbolTable.exists_weak_of_stub wf (fun _ => given_of_record? added) completed standing target
  exact ⟨other, (onlyWeakly_iff added).2 ⟨before, owner, position, known, weak, reference⟩⟩

end Session

end StaticLink
