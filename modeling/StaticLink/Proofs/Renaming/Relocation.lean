import StaticLink.Proofs.Renaming.Program

/-!
# Relocation of inputs under other names

No index and no address depends on the name of an input, and so no relocated operand does. Errors
tell such names where an operand refers to a table slot that its input does not have.

* `Program.renames_functionIndex`, `Program.renames_globalIndex`, `Program.renames_dataAddress`:
  what a symbol becomes.
* `Program.renames_relocate`: what is copied from an input.
-/

namespace StaticLink

variable {f : String → String}

namespace Program

variable (program : Program)

/-! ## Where each input begins -/

theorem renames_input (owner : ModuleId) :
    Renames f (ObjectModule.rename f) (program.input owner) ((program.rename f).input owner) :=
  renames_inputAt program.modules owner

theorem functionBase_rename (owner : ModuleId) :
    (program.rename f).functionBase owner = program.functionBase owner :=
  congrArg (_ + ·) (countBefore_rename (fun _ => rfl) program.modules owner)

theorem globalBase_rename (owner : ModuleId) :
    (program.rename f).globalBase owner = program.globalBase owner :=
  congrArg (_ + ·) (countBefore_rename (fun _ => rfl) program.modules owner)

theorem elementBase_rename (owner : ModuleId) :
    (program.rename f).elementBase owner = program.elementBase owner :=
  countBefore_rename (fun _ => rfl) program.modules owner

theorem elementCount_rename : (program.rename f).elementCount = program.elementCount :=
  countAll_rename (fun _ => rfl) program.modules

/-! ## What symbols become -/

theorem renames_required (symbol : Symbol) (value : Option Nat) :
    Renames f id (required symbol value) (required (symbol.rename f) value) := by
  cases value with
  | some value => exact .ok value
  | none => exact .error (.undefinedSymbol symbol.name)

theorem renames_functionIndex (function : SymbolId) :
    Renames f id (program.functionIndex function) ((program.rename f).functionIndex function) := by
  refine (program.symbols.renames_get function).bind fun symbol => ?_
  obtain ⟨name, flags, context, target⟩ := symbol
  rcases target with (⟨owner, position⟩ | ⟨owner, position⟩ | _) | _ | _
  · refine (program.renames_input owner).bind fun _ => ?_
    rw [functionBase_rename]
    exact .pure _
  · refine .ite (.throw _) ((program.renames_input owner).bind fun module => ?_)
    exact (renames_existing module.functionImports[position.toNat]?).bind fun _ =>
      renames_required _ _
  · exact (renames_required _ _).bind fun _ => .pure _
  · exact .throw _
  · exact .throw _

theorem renames_globalIndex (global : SymbolId) :
    Renames f id (program.globalIndex global) ((program.rename f).globalIndex global) := by
  refine (program.symbols.renames_get global).bind fun symbol => ?_
  obtain ⟨name, flags, context, target⟩ := symbol
  rcases target with _ | (⟨owner, position⟩ | ⟨owner, position⟩ | _) | _
  · exact .throw _
  · refine (program.renames_input owner).bind fun _ => ?_
    rw [globalBase_rename]
    exact .pure _
  · refine (program.renames_input owner).bind fun module => ?_
    exact (renames_existing module.globalImports[position.toNat]?).bind fun _ =>
      renames_required _ _
  · exact (renames_required _ _).bind fun _ => .pure _
  · exact .throw _

theorem renames_dataAddress (data : SymbolId) :
    Renames f id (program.dataAddress data) ((program.rename f).dataAddress data) := by
  refine (program.symbols.renames_get data).bind fun symbol => ?_
  obtain ⟨name, flags, context, target⟩ := symbol
  rcases target with _ | _ | (⟨owner, segment, offset, size⟩ | _ | _)
  · exact .throw _
  · exact .throw _
  · have same : (program.rename f).layout.address? owner segment.toNat =
        program.layout.address? owner segment.toNat := rfl
    dsimp only [Symbol.rename]
    rw [same]
    cases program.layout.address? owner segment.toNat with
    | some address => exact .pure _
    | none => exact .throw _
  · exact renames_required _ _
  · exact .pure _

/-! ## The table -/

theorem renames_inputFunctionIndex (owner : ModuleId) (index : UInt32) :
    Renames f id (program.inputFunctionIndex owner index)
      ((program.rename f).inputFunctionIndex owner index) := by
  refine (program.renames_input owner).bind fun module => .ite ?_ ?_
  · rw [functionBase_rename]
    exact .inWord _
  · refine (renames_existing module.functionImports[index.toNat]?).bind fun found => ?_
    obtain ⟨name, field, type, symbol⟩ := found
    cases symbol with
    | some symbol => exact program.renames_functionIndex symbol
    | none => exact .throw _

theorem renames_tableSlot (owner : ModuleId) (slot : Nat) :
    Renames f id (program.tableSlot owner slot) ((program.rename f).tableSlot owner slot) := by
  refine (program.renames_input owner).map fun module => ?_
  rw [elementBase_rename]
  rfl

/-! ## Relocation -/

theorem renames_symbolValue (owner : ModuleId) (relocation : Relocation) (symbol : SymbolId)
    (current : Int) :
    Renames f id (program.symbolValue owner relocation symbol current)
      ((program.rename f).symbolValue owner relocation symbol current) := by
  refine (program.symbols.renames_get symbol).bind fun record => ?_
  -- Each kind of operand wants a kind of symbol, and the error tells the symbol only.
  have expect (wanted : Target.Kind) (mismatch : Error) :
      Renames f id (if record.target.kind = wanted then .ok () else .error mismatch)
        (if record.target.kind = wanted then .ok () else .error (mismatch.rename f)) :=
    .ite (.ok ()) (.error mismatch)
  refine .ite ((expect .data _).bind fun _ => (program.renames_dataAddress symbol).bind fun _ =>
    .pure _) (.ite ((expect .function _).bind fun _ => ?_) ?_)
  · refine (program.renames_tableSlot owner _).bind fun slot => ?_
    cases slot with
    | some slot => exact .pure _
    | none => exact (program.renames_input owner).bind fun module => .throw _
  · obtain ⟨kind, offset, index, addend⟩ := relocation
    cases kind with
    | functionIndexLeb =>
      exact (expect .function _).bind fun _ => (program.renames_functionIndex symbol).bind fun _ =>
        .pure _
    | globalIndexLeb | globalIndexI32 =>
      exact (expect .global _).bind fun _ => (program.renames_globalIndex symbol).bind fun _ =>
        .pure _
    | _ => exact .throw _

theorem renames_operandValue (owner : ModuleId) (relocation : Relocation) (current : Int) :
    Renames f id (program.operandValue owner relocation current)
      ((program.rename f).operandValue owner relocation current) := by
  refine .ite ?_ ((program.renames_input owner).bind fun module => ?_)
  · have same : (program.rename f).typeBase owner = program.typeBase owner :=
      typeBase_rename program.modules program.symbols owner
    rw [same]
    exact (Renames.inWord _).map fun _ => rfl
  · refine (module.renames_slot relocation.index).bind fun slot => ?_
    cases slot with
    | symbol symbol => exact program.renames_symbolValue owner relocation symbol current
    | table _ => exact .ite (.pure _) (.throw _)
    | wholeSection _ => exact .throw _

theorem renames_relocateOperand (owner : ModuleId) (relocation : Relocation)
    (position start : Nat) (bytes : Bytes) :
    Renames f id (program.relocateOperand owner relocation position start bytes)
      ((program.rename f).relocateOperand owner relocation position start bytes) := by
  unfold relocateOperand
  dsimp only
  split
  · exact .throw _
  · split
    · exact .throw _
    · exact (program.renames_operandValue owner relocation _).bind fun _ => .pure _

theorem renames_relocate (owner : ModuleId) (found : Section) (range : Span) :
    Renames f id (program.relocate owner found range)
      ((program.rename f).relocate owner found range) := by
  refine (program.renames_input owner).bind fun module => ?_
  refine (renames_existing (module.bytes.slice? range)).bind fun bytes => ?_
  exact .foldlM_items (fun before relocation _ =>
    .ite (program.renames_relocateOperand owner relocation _ _ before) (.pure before)) bytes

end Program

end StaticLink
