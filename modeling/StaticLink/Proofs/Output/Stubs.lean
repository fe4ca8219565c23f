import StaticLink.Proofs.Inputs.SharedSlots
import StaticLink.Proofs.Output.References
import StaticLink.Proofs.Output.Safety

/-!
# Weak references without a stub

A weak reference to a function that nothing defines gets a stub, so that asking for its index does
not fail. Stubs come under the names of references, and a private reference goes by no name. So it
gets none, and linking fails where something asks for its index.

* `SymbolEntry.isPrivateWeakFunction`: an entry is such a reference.
* `Program.Stubbed`: the functions without a stub are those of such entries, and no name and no
  export leads to them.
* `Program.Decided.stubbed`: it holds of every program.
* `Program.not_asks_of_contents`: what is linked asks for no such function.
* `Session.link_stubs`: linking fails for a function without a stub only where something asks for
  one, and does not succeed there.
-/

namespace StaticLink

/-- Whether the entry refers to a function, weakly and for its own input alone. -/
def SymbolEntry.isPrivateWeakFunction : SymbolEntry → Bool
  | .function flags _ _ =>
    flags.contains .undefined && flags.contains .weak && flags.contains .localBinding
  | _ => false

/-- Symbol `id` is that of a private weak reference to a function. -/
def PrivateWeak (inputs : List (String × Bytes)) (modules : List ObjectModule) (id : SymbolId) :
    Prop :=
  ∃ owner k module entry, EntryLeads inputs modules owner k module entry id ∧
    entry.isPrivateWeakFunction = true

/-- The functions without a stub are private, so that nothing that goes by names leads to them. -/
structure Program.Stubbed (inputs : List (String × Bytes)) (program : Program) : Prop where
  unstubbed_iff : ∀ id, (∃ name, program.Unstubbed id name) ↔
    PrivateWeak inputs program.modules id
  named : ∀ called id, program.symbols.lookup called = some id →
    ∀ name, ¬ program.Unstubbed id name
  /-- The entry point and what is exported by its name. -/
  exported : ∀ called id, program.definedFunction? called = some id →
    ∀ name, ¬ program.Unstubbed id name
  /-- What inputs ask to be exported. -/
  flagged : ∀ id symbol, (id, symbol) ∈ program.flaggedSymbols →
    ∀ name, ¬ program.Unstubbed id name

variable {inputs : List (String × Bytes)} {modules : List ObjectModule} {id : SymbolId}

/-! ## Entries of references -/

/-- An entry with what it leads to, at its place in the symbol table of its input. -/
theorem exists_entryLeads {lead : Lead} (member : lead ∈ leads inputs modules)
    (slot : lead.slot = .symbol id) :
    ∃ k module, EntryLeads inputs modules lead.owner k module lead.entry id := by
  obtain ⟨⟨⟨⟨name, bytes⟩, module⟩, owner⟩, listed, among⟩ := List.mem_flatMap.1 member
  obtain ⟨⟨entry, other⟩, paired, rfl⟩ := List.mem_map.1 among
  obtain ⟨k, here⟩ := List.mem_iff_getElem?.1 paired
  have both := List.mk_mem_zipIdx_iff_getElem?.1 listed
  rw [List.getElem?_zip_eq_some] at here both
  refine ⟨k, module, ⟨name, bytes, both.1, here.1⟩, both.2, ?_⟩
  rw [← Array.getElem?_toList, here.2]
  exact congrArg some slot

theorem SymbolEntry.exists_function_of_reference? {entry : SymbolEntry} {owner other : ModuleId}
    {position : UInt32}
    (refers : entry.reference? owner = some (.function (.undefined other position))) :
    ∃ flags name, entry = .function flags position name ∧ flags.contains .undefined = true := by
  cases entry with
  | function flags index name =>
    unfold reference? at refers
    dsimp only at refers
    split at refers
    · next undefined =>
      cases refers
      exact ⟨flags, name, rfl, undefined⟩
    · cases refers
  | global flags index name =>
    unfold reference? at refers
    dsimp only at refers
    split at refers
    · cases refers
    · cases refers
  | data flags name place =>
    cases place with
    | none => cases refers
    | some place => cases refers
  | _ => cases refers

theorem SymbolEntry.isPrivateWeakFunction_iff {entry : SymbolEntry} :
    entry.isPrivateWeakFunction = true ↔
      (∃ position, entry.importPlace? = some (.function position)) ∧
        entry.flags.contains .weak = true ∧ entry.isLocal = true := by
  cases entry with
  | function flags index name =>
    simp only [isPrivateWeakFunction, importPlace?, isLocal, SymbolEntry.flags, Bool.and_eq_true]
    split
    · next undefined => simp [undefined]
    · next defined => simp [defined]
  | global flags index name =>
    simp only [isPrivateWeakFunction, importPlace?]
    split <;> simp
  | _ => simp [isPrivateWeakFunction, importPlace?]

theorem Target.exists_of_importPlace? {target : Target} {position : Nat}
    (place : target.importPlace? = some (.function position)) :
    ∃ owner position, target = .function (.undefined owner position) := by
  unfold importPlace? at place
  split at place
  · next owner position => exact ⟨owner, position, rfl⟩
  · cases place
  · cases place

namespace Program

variable {program : Program} {session : Session} {base : Nat} {name : String}

/-! ## What has no stub -/

/-- The slots of all inputs lead into the table of the program. -/
theorem Decided.slotted (decided : program.Decided session base)
    (added : Session.addAll inputs .empty = .ok () session) :
    Slotted inputs program.modules program.symbols := by
  obtain ⟨sound, slotted⟩ := Session.addAll_slotted added
  have wf := (sound.registered.later SymbolTable.wellFormed_empty).1
  rw [decided.modules] at slotted
  exact slotted.later wf (SymbolTable.reached_of_complete decided.symbols)

/-- No name leads to a function without a stub, since each name of a weak reference got one. -/
theorem Decided.not_unstubbed_of_lookup (decided : program.Decided session base)
    (intact : Intact session.modules session.symbols) {called : String}
    (known : program.symbols.lookup called = some id) : ¬ program.Unstubbed id name := by
  rintro ⟨symbol, found, -, weak, owner, position, target⟩
  have wf := (decided.intact intact).wellFormed
  have named := wf.name_eq known found
  have member : (id, symbol) ∈ program.symbols.symbols :=
    wf.mem_symbols_iff.2 ⟨by rw [named, known], found⟩
  cases SymbolTable.completed_of_complete intact.wellFormed decided.symbols member with
  | definition defined =>
    rw [Symbol.isDefinition, Symbol.isUndefined, target] at defined
    cases defined
  | strongFunction _ strong =>
    rw [weak] at strong
    cases strong
  | strongGlobal other | weakGlobal other | weakData other =>
    rw [target] at other
    cases other

/-- The first entry for a function without a stub is a private weak reference. -/
theorem Unstubbed.privateWeak (unstubbed : program.Unstubbed id name)
    (decided : program.Decided session base)
    (added : Session.addAll inputs .empty = .ok () session) :
    PrivateWeak inputs program.modules id := by
  have intact := Session.addAll_intact added
  have ⟨symbol, found, _, weak, owner, position, target⟩ := unstubbed
  have undefined : symbol.isUndefined = true := by
    rw [Symbol.isUndefined, target]
    rfl
  have led := (Session.addAll_ledBy added).supplied intact.wellFormed
    (SymbolTable.reached_of_complete decided.symbols)
  rw [decided.modules] at led
  obtain ⟨lead, first, refers⟩ := led.first id symbol found undefined
  rw [target] at refers
  unfold firstLead? at first
  have slot := List.find?_some first
  obtain ⟨k, module, leads⟩ :=
    exists_entryLeads (List.mem_of_find?_eq_some first) (of_decide_eq_true slot)
  have holds := (decided.slotted added).holds_of_leads leads
  -- An entry that is not private has a name, and its symbol has a stub.
  have hidden : lead.entry.isLocal = true := by
    by_contra visible
    obtain ⟨called, -, known⟩ := holds.lookup (eq_false_of_ne_true visible)
    exact decided.not_unstubbed_of_lookup intact known unstubbed
  obtain ⟨-, same, found', flags, -⟩ := holds.own hidden
  cases found.symm.trans found'
  obtain ⟨given, called, entry, reference⟩ := SymbolEntry.exists_function_of_reference? refers
  refine ⟨lead.owner, k, module, lead.entry, leads, ?_⟩
  rw [SymbolEntry.isPrivateWeakFunction_iff, ← flags]
  refine ⟨⟨position.toNat, ?_⟩, weak, hidden⟩
  rw [entry, SymbolEntry.importPlace?, if_pos reference]

/-- A private weak reference to a function has no stub. -/
theorem Decided.exists_unstubbed (decided : program.Decided session base)
    (added : Session.addAll inputs .empty = .ok () session)
    (reference : PrivateWeak inputs program.modules id) : ∃ name, program.Unstubbed id name := by
  obtain ⟨owner, k, module, entry, leads, isReference⟩ := reference
  obtain ⟨⟨position, place⟩, weak, hidden⟩ := SymbolEntry.isPrivateWeakFunction_iff.1 isReference
  obtain ⟨-, symbol, found, flags, same⟩ :=
    ((decided.slotted added).holds_of_leads leads).own hidden
  refine ⟨symbol.name, symbol, found, rfl, ?_, Target.exists_of_importPlace? (same.trans place)⟩
  rw [Symbol.isWeak, flags]
  exact weak

theorem Decided.stubbed (decided : program.Decided session base)
    (added : Session.addAll inputs .empty = .ok () session) : program.Stubbed inputs where
  unstubbed_iff := fun _ =>
    ⟨fun ⟨_, unstubbed⟩ => unstubbed.privateWeak decided added, decided.exists_unstubbed added⟩
  named := fun _ _ known _ => decided.not_unstubbed_of_lookup (Session.addAll_intact added) known
  exported := fun _ _ found => (isDefined_of_definedFunction? found).not_unstubbed
  flagged := fun _ _ member =>
    (isDefined_of_flagged (decided.intact (Session.addAll_intact added)) member).2.not_unstubbed

/-! ## What asks for it -/

theorem functionIndex_of_unstubbed (unstubbed : program.Unstubbed id name) :
    program.functionIndex id = .error (.unresolvedWeakFunction name) := by
  obtain ⟨symbol, found, rfl, weak, owner, position, target⟩ := unstubbed
  have stands : program.symbols.get id = .ok symbol := existing_eq_ok.2 found
  unfold functionIndex
  rw [stands]
  simp only [bind, Except.bind, target, if_pos weak]
  rfl

/-- A module that was written asks for no function without a stub. -/
theorem not_asks_of_contents {output : Bytes} (contents : program.Contents output)
    (layout : DataLayout.ofModules program.modules base = .ok program.layout)
    (asks : program.Asks id) : ¬ program.Unstubbed id name := by
  intro unstubbed
  have never {index : Nat} (here : program.functionIndex id = .ok index) : False := by
    rw [functionIndex_of_unstubbed unstubbed] at here
    cases here
  cases asks with
  | call copies member calls =>
    obtain ⟨result, relocated, -⟩ := exists_relocate_of_copies contents layout copies
    obtain ⟨current, value, computed⟩ := exists_operandValue_of_relocate relocated member
    obtain ⟨index, here⟩ := functionIndex_of_operandValue calls.kind calls.leads computed
    exact never here
  | @entry owner module segment index found input fills member here stands =>
    have owns := existing_eq_ok.1 input
    have listed := List.mem_flatMap.2 ⟨segment, Array.mem_toList_iff.2 fills, member⟩
    obtain ⟨position, there⟩ := List.mem_iff_getElem?.1 listed
    have small : position < module.elementCount := (List.getElem?_eq_some_iff.1 there).1
    obtain ⟨entries, produced, -⟩ := contents.elements (elementSegmentCount_ne_zero owns small)
    obtain ⟨functions, looked, -⟩ := bind_eq_ok.1 produced
    obtain ⟨stored, computed, -⟩ := tableFunctions_getElem? looked owns there
    have imported : index.toNat < module.functionImports.size :=
      (Array.getElem?_eq_some_iff.1 here).1
    rcases inputFunctionIndex_eq_ok input computed with ⟨own, -⟩ | ⟨-, last, symbol, index⟩
    · exact Nat.not_lt_of_le own imported
    · rw [ObjectModule.importSymbol?, here] at symbol
      cases stands.symm.trans symbol
      exact never index
  | initializer any supplied stands target member =>
    obtain ⟨entries, produced, -⟩ := contents.code any
    obtain ⟨bodies, each, -⟩ := bind_eq_ok.1 produced
    obtain ⟨body, -, here⟩ := exists_of_mapM_eq_ok each supplied
    obtain ⟨symbol, again, here⟩ := bind_eq_ok.1 here
    cases stands.symm.trans (existing_eq_ok.1 again)
    simp only [target] at here
    obtain ⟨functions, indices, -⟩ := bind_eq_ok.1 here
    obtain ⟨index, -, here⟩ := exists_of_mapM_eq_ok indices member
    exact never here

end Program

/-! ## Linking -/

namespace Session

variable {session : Session}

/-- Linking fails for a function without a stub only where something in the linked module asks for
the index of one, and it does not succeed there. The functions without a stub are those of the
private weak references. -/
theorem link_stubs (added : addAll inputs .empty = .ok () session) (options : Options) :
    (∀ name, session.link options = .error (.unresolvedWeakFunction name) →
      ∃ program id, Program.ofSession session options.globalBase.toNat = .ok program ∧
        program.Asks id ∧ program.Unstubbed id name) ∧
    ∀ program, Program.ofSession session options.globalBase.toNat = .ok program →
      program.Stubbed inputs ∧
      ∀ id name, program.Asks id → program.Unstubbed id name →
        ∀ output, session.link options ≠ .ok output := by
  have intact := addAll_intact added
  constructor
  · intro name failed
    have blames : Blames (fun name => ∃ program id,
        Program.ofSession session options.globalBase.toNat = .ok program ∧
          program.Asks id ∧ program.Unstubbed id name) True (session.link options) := by
      refine blames_link intact options (fun _ => ⟨fun _ => trivial, fun _ _ _ _ _ _ => trivial⟩)
        fun program decided => ⟨fun _ _ _ _ => trivial, fun id asks name unstubbed => ?_⟩
      exact ⟨program, id, decided, asks, unstubbed⟩
    exact (blames _ failed).function name rfl
  · intro program decided
    have parts := Program.decided_of_ofSession decided
    refine ⟨parts.stubbed added, fun id name asks unstubbed output linked => ?_⟩
    obtain ⟨_, same, linked⟩ := bind_eq_ok.1 linked
    cases decided.symm.trans same
    obtain ⟨interface, -, encoded⟩ := bind_eq_ok.1 linked
    have contents := (Program.written_of_encode encoded).contents
    exact Program.not_asks_of_contents contents parts.layout asks unstubbed

/-- Inputs that are all accepted are linked as those of their session. -/
theorem exists_session_of_accepted (accepted : (addAll inputs).run' .empty = some ())
    (options : Options) : ∃ session, addAll inputs .empty = .ok () session ∧
      session.link options = StaticLink.link inputs options := by
  obtain ⟨session, added⟩ := exists_of_run' accepted
  refine ⟨session, added, ?_⟩
  unfold StaticLink.link
  rw [added]

/-- An input that imports a function, refers to it weakly and for itself alone, and calls it from
another function. -/
def recluse : String × Bytes :=
  ("importer.o",
    [0, 97, 115, 109, 1, 0, 0, 0, 1, 4, 1, 96, 0, 0, 2, 9, 1, 3, 101, 110, 118, 1, 102, 0, 0, 3,
     2, 1, 0, 10, 10, 1, 8, 0, 16, 128, 128, 128, 128, 0, 11, 0, 20, 7, 108, 105, 110, 107, 105,
     110, 103, 2, 8, 9, 2, 0, 19, 0, 0, 0, 1, 1, 103, 0, 16, 10, 114, 101, 108, 111, 99, 46, 67,
     79, 68, 69, 3, 1, 0, 4, 0])

/-- The input is accepted, and linking it fails for a function without a stub. -/
theorem link_recluse : ∃ session, addAll [recluse] .empty = .ok () session ∧
    session.link {} = .error (.unresolvedWeakFunction "f") := by
  have accepted : (addAll [recluse]).run' .empty = some () := by decide +kernel
  have failed : StaticLink.link [recluse] {} = .error (.unresolvedWeakFunction "f") := by
    decide +kernel
  obtain ⟨session, added, linked⟩ := exists_session_of_accepted accepted {}
  exact ⟨session, added, linked.trans failed⟩

/-- The private reference has no stub also where another input defines a function of its name. -/
theorem link_stubs_recluse : ∃ session program id,
    addAll [recluse, namesake] .empty = .ok () session ∧
    Program.ofSession session 1024 = .ok program ∧ program.Asks id ∧ program.Unstubbed id "f" ∧
    program.Stubbed [recluse, namesake] ∧ PrivateWeak [recluse, namesake] program.modules id := by
  have accepted : (addAll [recluse, namesake]).run' .empty = some () := by decide +kernel
  have failed : StaticLink.link [recluse, namesake] {} = .error (.unresolvedWeakFunction "f") := by
    decide +kernel
  obtain ⟨session, added, linked⟩ := exists_session_of_accepted accepted {}
  obtain ⟨fails, succeeds⟩ := link_stubs added {}
  obtain ⟨program, id, decided, asks, unstubbed⟩ := fails "f" (linked.trans failed)
  obtain ⟨stubbed, -⟩ := succeeds program decided
  exact ⟨session, program, id, added, decided, asks, unstubbed, stubbed,
    (stubbed.unstubbed_iff id).1 ⟨"f", unstubbed⟩⟩

end Session

end StaticLink
