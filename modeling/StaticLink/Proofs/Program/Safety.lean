import StaticLink.Program.Relocation
import StaticLink.Proofs.Program.Pointers
import StaticLink.Proofs.Program.Sums
import StaticLink.Proofs.Relocation.Copy
import StaticLink.Proofs.SymbolTable.Safety

/-!
# What symbols and operands become follows no reference that leads nowhere

What asks for the index of a function fails if the function is a weak reference without a stub. All
else does not fail for such a reference. What adds up a number that an input states fails if this is
no word.

* `Program.Unstubbed`: a symbol is such a reference; `Program.Allows`: its name is one of some.
* `Program.blames_ofSession`: deciding a program.
* `Program.blames_functionIndex`, `Program.blames_globalIndex`, `Program.blames_dataAddress`,
  `Program.blames_inputFunctionIndex`: what a symbol becomes, and an entry of a table.
* `Program.blames_relocate`: relocating a part of an input.
-/

namespace StaticLink

/-! ## What symbols become -/

namespace Program

/-- Symbol `id` is a weak reference to a function, called `name`, that has no stub. -/
def Unstubbed (program : Program) (id : SymbolId) (name : String) : Prop :=
  ∃ symbol, program.symbols.records[id]? = some symbol ∧ symbol.name = name ∧
    symbol.isWeak = true ∧ ∃ owner position, symbol.target = .function (.undefined owner position)

/-- If symbol `id` is such a reference, then its name satisfies `Q`. -/
def Allows (program : Program) (Q : String → Prop) (id : SymbolId) : Prop :=
  ∀ name, program.Unstubbed id name → Q name

variable {program : Program} {owner : ModuleId} {module : ObjectModule} {id : SymbolId}
  {kind : Target.Kind} {relocation : Relocation} {Q : String → Prop} {R : Prop}

theorem blames_required (symbol : Symbol) (value : Option Nat) :
    Blames Q R (required symbol value) := by
  cases value with
  | none => exact .error (by simp)
  | some value => exact .ok value

theorem blames_input (input : program.modules[owner]? = some module) :
    Blames Q R (program.input owner) := .existing input

/-- Asking for an input that exists gives it to what follows. -/
theorem blames_bind_input {α : Type} {next : ObjectModule → Except Error α}
    (input : program.modules[owner]? = some module) (other : Blames Q R (next module)) :
    Blames Q R (program.input owner >>= next) := by
  refine (blames_input input).bind fun found here => ?_
  obtain rfl := Option.some.inj ((existing_eq_ok.1 here).symm.trans input)
  exact other

theorem blames_functionIndex (intact : Intact program.modules program.symbols)
    (registered : program.symbols.Registered id kind) (asked : program.Allows Q id) :
    Blames Q R (program.functionIndex id) := by
  refine registered.blames_get.bind fun symbol stands => ?_
  have exist := intact.targets id symbol (existing_eq_ok.1 stands)
  split
  · next owner position target =>
    rw [target] at exist
    obtain ⟨module, input, -⟩ := exist owner rfl
    exact blames_bind_input input (.ok _)
  · next owner position target =>
    rw [target] at exist
    obtain ⟨module, input, small⟩ := exist owner rfl
    split
    · next weak =>
      refine .throw ⟨by simp, ?_, by simp⟩
      rintro _ ⟨⟩
      exact asked _ ⟨symbol, existing_eq_ok.1 stands, rfl, weak, owner, position, target⟩
    · refine blames_bind_input input ?_
      exact (Blames.existing (Array.getElem?_eq_getElem small)).bind fun _ _ =>
        blames_required symbol _
  · exact (blames_required symbol _).map _
  · exact .throw (by simp)

theorem blames_globalIndex (intact : Intact program.modules program.symbols)
    (registered : program.symbols.Registered id kind) : Blames Q R (program.globalIndex id) := by
  refine registered.blames_get.bind fun symbol stands => ?_
  have exist := intact.targets id symbol (existing_eq_ok.1 stands)
  split
  · next owner position target =>
    rw [target] at exist
    obtain ⟨module, input, -⟩ := exist owner rfl
    exact blames_bind_input input (.ok _)
  · next owner position target =>
    rw [target] at exist
    obtain ⟨module, input, small⟩ := exist owner rfl
    refine blames_bind_input input ?_
    exact (Blames.existing (Array.getElem?_eq_getElem small)).bind fun _ _ =>
      blames_required symbol _
  · exact (blames_required symbol _).map _
  · exact .throw (by simp)

theorem blames_dataAddress (registered : program.symbols.Registered id kind) :
    Blames Q R (program.dataAddress id) := by
  refine registered.blames_get.bind fun symbol _ => ?_
  split
  · split
    · exact .ok _
    · exact .throw (by simp)
  · exact blames_required symbol _
  · exact .ok _
  · exact .throw (by simp)

/-- A table entry is a function that the input defines, or one of its imports. -/
theorem blames_inputFunctionIndex (intact : Intact program.modules program.symbols)
    (explains : program.Explains R) (input : program.modules[owner]? = some module)
    {index : UInt32} (stated : module.StatesFunction index)
    (asked : ∀ found id, module.functionImports[index.toNat]? = some found →
      found.symbol = some id → program.Allows Q id) :
    Blames Q R (program.inputFunctionIndex owner index) := by
  refine blames_bind_input input ?_
  dsimp only
  split
  · next own => exact .inWord (explains _ _ (.ownFunction input stated own))
  · next small =>
    refine (Blames.existing (Array.getElem?_eq_getElem (Nat.lt_of_not_le small))).bind ?_
    intro found here
    split
    · next symbol stands =>
      have member := Array.mem_of_getElem? (existing_eq_ok.1 here)
      have names := intact.imports module (List.mem_of_getElem? input)
      exact blames_functionIndex intact (names.functions found member symbol stands)
        (asked found symbol (existing_eq_ok.1 here) stands)
    · exact .throw (by simp)

theorem blames_tableSlot (input : program.modules[owner]? = some module) (slot : Nat) :
    Blames Q R (program.tableSlot owner slot) :=
  blames_bind_input input (.ok _)

/-! ## Operands -/

theorem blames_symbolValue (intact : Intact program.modules program.symbols)
    (input : program.modules[owner]? = some module)
    (registered : program.symbols.Registered id kind)
    (asked : relocation.kind = .functionIndexLeb → program.Allows Q id)
    (current : Int) : Blames Q R (program.symbolValue owner relocation id current) := by
  refine registered.blames_get.bind fun symbol _ => ?_
  have expected (wanted : Target.Kind) {α : Type} {next : Unit → Except Error α}
      (other : Blames Q R (next ())) : Blames Q R ((if symbol.target.kind = wanted then .ok ()
        else .error (.invalidRelocation relocation.kind relocation.offset symbol.name)) >>= next) := by
    split
    · exact other
    · exact .error (by simp)
  dsimp only
  split
  · exact expected .data ((blames_dataAddress registered).map _)
  · split
    · refine expected .function ((blames_tableSlot input _).bind fun slot _ => ?_)
      split
      · exact .ok _
      · exact blames_bind_input input (.throw (by simp))
    · split
      · next asks =>
        exact expected .function ((blames_functionIndex intact registered (asked asks)).map _)
      · exact expected .global ((blames_globalIndex intact registered).map _)
      · exact expected .global ((blames_globalIndex intact registered).map _)
      · exact .throw (by simp)
      · exact .throw (by simp)

theorem blames_operandValue (intact : Intact program.modules program.symbols)
    (input : program.modules[owner]? = some module)
    (asked : ∀ id, program.Calls owner relocation id → program.Allows Q id)
    (explains : relocation.kind = .typeIndexLeb →
      wordLimit ≤ program.typeBase owner + relocation.index.toNat → R)
    (current : Int) : Blames Q R (program.operandValue owner relocation current) := by
  unfold operandValue
  split
  · next kind => exact (Blames.inWord (explains kind)).map _
  · refine blames_bind_input input ((module.blames_slot _).bind fun slot here => ?_)
    split
    · next id =>
      obtain ⟨kind, registered⟩ :=
        intact.registered_of_slot (List.mem_of_getElem? input) here
      have leads : program.LeadsTo owner relocation.index (.symbol id) :=
        ⟨module, existing_eq_ok.2 input, ObjectModule.slot_eq_ok_iff.1 here⟩
      exact blames_symbolValue intact input registered (fun asks => asked id ⟨asks, leads⟩) current
    · split
      · exact .ok _
      · exact .throw (by simp)
    · exact .throw (by simp)

theorem blames_relocateOperand (intact : Intact program.modules program.symbols)
    (input : program.modules[owner]? = some module)
    (asked : ∀ id, program.Calls owner relocation id → program.Allows Q id)
    (explains : relocation.kind = .typeIndexLeb →
      wordLimit ≤ program.typeBase owner + relocation.index.toNat → R)
    (position start : Nat) (bytes : Bytes) :
    Blames Q R (program.relocateOperand owner relocation position start bytes) := by
  unfold relocateOperand
  dsimp only
  split
  · exact .throw (by simp)
  · split
    · exact .throw (by simp)
    · next current _ => exact (blames_operandValue intact input asked explains current).map _

/-- A range within an input is copied with its relocations. -/
theorem blames_relocate (intact : Intact program.modules program.symbols)
    (input : program.modules[owner]? = some module) (found : Section) {range : Span}
    (order : range.start ≤ range.stop) (within : range.stop ≤ module.bytes.length)
    (asked : ∀ relocation ∈ found.operands range, ∀ id, program.Calls owner relocation id →
      program.Allows Q id)
    (explains : ∀ relocation ∈ found.relocations, relocation.kind = .typeIndexLeb →
      wordLimit ≤ program.typeBase owner + relocation.index.toNat → R) :
    Blames Q R (program.relocate owner found range) := by
  obtain ⟨bytes, there⟩ := Bytes.exists_slice? order within
  refine blames_bind_input input ((Blames.existing there).bind fun bytes _ => ?_)
  refine Blames.foldlM fun bytes relocation listed => ?_
  dsimp only
  split
  · next inside =>
    have member : relocation ∈ found.operands range :=
      List.mem_filter.2 ⟨listed, decide_eq_true inside⟩
    exact blames_relocateOperand intact input (asked relocation member)
      (explains relocation (Array.mem_toList_iff.1 listed)) _ _ bytes
  · exact .ok _

end Program

/-! ## Imports -/

namespace Imports

variable {modules : List ObjectModule} {symbols : SymbolTable} {owner : ModuleId}
  {position : UInt32} {Q : String → Prop} {R : Prop}

/-- Every reference that is imported is an import of an input. -/
theorem exists_of_strongFunctions (intact : Intact modules symbols)
    (member : (owner, position) ∈ symbols.strongFunctions) :
    ∃ module, modules[owner]? = some module ∧ position.toNat < module.functionImports.size := by
  obtain ⟨⟨id, record⟩, listed, stands⟩ := List.mem_filterMap.1 member
  have found := (intact.wellFormed.mem_symbols_iff.1 (List.mem_filter.1 listed).1).2
  exact intact.functionImport_exists found stands

theorem exists_of_strongGlobals (intact : Intact modules symbols)
    (member : (owner, position) ∈ symbols.strongGlobals) :
    ∃ module, modules[owner]? = some module ∧ position.toNat < module.globalImports.size := by
  obtain ⟨⟨id, record⟩, listed, stands⟩ := List.mem_filterMap.1 member
  have found := (intact.wellFormed.mem_symbols_iff.1 (List.mem_filter.1 listed).1).2
  exact intact.globalImport_exists found stands

theorem blames_ofFunction {module : ObjectModule} (explains : Program.ExplainsTypes modules symbols R)
    (input : modules[owner]? = some module)
    (small : position.toNat < module.functionImports.size) :
    Blames Q R (ofFunction modules symbols owner position) := by
  refine (Blames.existing input).bind fun module here => ?_
  obtain rfl := Option.some.inj ((existing_eq_ok.1 here).symm.trans input)
  refine (Blames.existing (Array.getElem?_eq_getElem small)).bind fun found imported => ?_
  have listed := Array.mem_of_getElem? (existing_eq_ok.1 imported)
  exact (Blames.inWord (explains.index _ _ _ input (.inr (.inl ⟨found, listed, rfl⟩)))).map _

theorem blames_ofGlobal {module : ObjectModule} (input : modules[owner]? = some module)
    (small : position.toNat < module.globalImports.size) :
    Blames Q R (ofGlobal modules owner position) := by
  refine (Blames.existing input).bind fun found here => ?_
  obtain rfl := Option.some.inj ((existing_eq_ok.1 here).symm.trans input)
  exact (Blames.existing (Array.getElem?_eq_getElem small)).map _

theorem blames_ofSymbols (intact : Intact modules symbols)
    (explains : Program.ExplainsTypes modules symbols R) :
    Blames Q R (ofSymbols modules symbols) := by
  refine Blames.bind (.mapM ?_) fun functions _ => Blames.map _ (.mapM ?_)
  · rintro ⟨owner, position⟩ member
    obtain ⟨module, input, small⟩ := exists_of_strongFunctions intact member
    exact blames_ofFunction explains input small
  · rintro ⟨owner, position⟩ member
    obtain ⟨module, input, small⟩ := exists_of_strongGlobals intact member
    exact blames_ofGlobal input small

end Imports

namespace Program

variable {session : Session} {base : Nat} {program : Program} {id : SymbolId} {Q : String → Prop} {R : Prop}

/-- What is on a list of what the linker supplies is supplied by the linker. -/
theorem synthesized_of_mem (intact : Intact program.modules program.symbols) (kind : Target.Kind)
    (member : id ∈ program.symbols.synthetic kind) :
    ∃ symbol, program.symbols.records[id]? = some symbol ∧ symbol.target.isSynthesized = true ∧
      symbol.target.kind = kind :=
  (intact.wellFormed.mem_synthetic kind id).1 member

theorem registered_of_mem_synthetic (intact : Intact program.modules program.symbols)
    (member : id ∈ program.symbols.syntheticFunctions) :
    program.symbols.Registered id .function := by
  obtain ⟨symbol, stands, -, function⟩ := synthesized_of_mem intact .function member
  exact ⟨symbol, stands, function⟩

theorem blames_functionTypes (intact : Intact program.modules program.symbols)
    (explains : ExplainsTypes program.modules program.symbols R) :
    Blames Q R program.functionTypes := by
  refine Blames.bind (.mapM fun id member => ?_) fun synthetic _ => Blames.map _ (.mapM ?_)
  · have registered := registered_of_mem_synthetic intact member
    refine registered.blames_get.bind fun symbol stands => ?_
    split
    · next owner position target =>
      have exist := intact.targets id symbol (existing_eq_ok.1 stands)
      rw [target] at exist
      obtain ⟨module, input, small⟩ := exist
      exact (Imports.blames_ofFunction explains input small).map _
    · exact .ok 0
  · intro number copied
    obtain ⟨⟨module, owner⟩, listed, copied⟩ := List.mem_flatMap.1 copied
    obtain ⟨type, stated, rfl⟩ := List.mem_map.1 copied
    exact .inWord (explains.index _ _ _ (List.mk_mem_zipIdx_iff_getElem?.1 listed)
      (.inl (Array.mem_toList_iff.1 stated)))

/-- Deciding the program of a session follows no reference that leads nowhere, and asks for no
function. -/
theorem blames_ofSession (intact : Intact session.modules session.symbols)
    (explains : ∀ symbols, ExplainsTypes session.modules symbols R) (base : Nat) :
    Blames Q R (ofSession session base) := by
  refine (DataLayout.blames_ofModules session.modules base).bind fun layout _ => ?_
  refine (blames_stackTop layout.stop).bind fun stackTop _ => ?_
  have completed := intact.complete layout stackTop
  refine (completed.blames Q R).bind fun symbols done => ?_
  have intact := completed.intact symbols done
  refine (Blames.inWord (explains symbols).count).bind fun _ _ => ?_
  refine (Imports.blames_ofSymbols intact (explains symbols)).bind fun imports _ => ?_
  let program : Program := ⟨session.modules, symbols, layout, stackTop, imports⟩
  have types : Blames Q R program.functionTypes := blames_functionTypes intact (explains symbols)
  exact types.map fun _ => program

/-- References lead somewhere in a program if they do so in its session. -/
theorem Decided.intact (decided : program.Decided session base)
    (intact : Intact session.modules session.symbols) :
    Intact program.modules program.symbols := by
  rw [decided.modules] at intact
  exact (intact.complete program.layout program.stackTop).intact _ decided.symbols

end Program

end StaticLink
