import StaticLink.Proofs.Inputs.Program
import StaticLink.Proofs.Numbering

/-!
# The function index space

The functions of a linked module are its imports, then those that the linker supplies, then those
of the inputs, one input after the other. Each index belongs to one function.

* `Program.functionIndex_eq_iff`: a symbol has the index of a function of an input exactly if it
  stands for this function.
-/

namespace StaticLink

namespace Program

/-! ## Indices of functions -/

variable {inputs : List (String × Bytes)} {program : Program} {id : SymbolId} {index : Nat}

/-- The functions that the linker supplies and those that are imported come before those of the
inputs. -/
theorem lt_functionBase_of_synthetic {position : Nat}
    (here : program.symbols.syntheticFunctionIndex? id = some position) (owner : ModuleId) :
    program.syntheticFunctionBase + position < program.functionBase owner := by
  obtain ⟨small, -⟩ := List.idxOf?_eq_some_iff.1 here
  unfold functionBase
  omega

theorem lt_functionBase_of_import {name : ImportName}
    (here : program.imports.functionIndex? name = some index) (owner : ModuleId) :
    index < program.functionBase owner := by
  obtain ⟨small, -⟩ := List.findIdx?_eq_some_iff_getElem.1 here
  unfold functionBase syntheticFunctionBase
  omega

theorem required_eq_ok {symbol : Symbol} {value : Option Nat}
    (h : required symbol value = .ok index) : value = some index := by
  unfold required at h
  split at h
  · cases h
    rfl
  · cases h

/-- Where the function of a symbol can be. -/
inductive FunctionAt (program : Program) (id : SymbolId) : (index : Nat) → Prop
  /-- Among the functions of an input. -/
  | defined {symbol : Symbol} {owner : ModuleId} {place : UInt32} {module : ObjectModule}
      (stands : program.symbols.get id = .ok symbol)
      (target : symbol.target = .function (.defined owner place))
      (input : program.input owner = .ok module) :
    FunctionAt program id (program.functionBase owner + place.toNat)
  /-- Among the imports. -/
  | imported {symbol : Symbol} {owner : ModuleId} {place : UInt32} {module : ObjectModule}
      {found : FunctionImport} {index : Nat} (stands : program.symbols.get id = .ok symbol)
      (target : symbol.target = .function (.undefined owner place))
      (strong : symbol.isWeak = false) (input : program.input owner = .ok module)
      (imports : module.functionImport place = .ok found)
      (here : program.imports.functionIndex? found.importName = some index) :
    FunctionAt program id index
  /-- Among the functions that the linker supplies. -/
  | supplied {symbol : Symbol} {function : SyntheticFunction} {position : Nat}
      (stands : program.symbols.get id = .ok symbol)
      (target : symbol.target = .function (.synthesized function))
      (here : program.symbols.syntheticFunctionIndex? id = some position) :
    FunctionAt program id (program.syntheticFunctionBase + position)

theorem functionAt_of_functionIndex (h : program.functionIndex id = .ok index) :
    program.FunctionAt id index := by
  obtain ⟨symbol, stands, h⟩ := bind_eq_ok.1 h
  split at h
  · next owner place target =>
    obtain ⟨module, input, rfl⟩ := return_eq_ok.1 h
    exact .defined stands target input
  · next owner place target =>
    split at h
    · cases h
    · next strong =>
      obtain ⟨module, input, h⟩ := bind_eq_ok.1 h
      obtain ⟨found, imports, h⟩ := bind_eq_ok.1 h
      exact .imported stands target (Bool.eq_false_iff.2 strong) input imports (required_eq_ok h)
  · next function target =>
    obtain ⟨position, here, rfl⟩ := return_eq_ok.1 h
    exact .supplied stands target (required_eq_ok here)
  · cases h

/-- A symbol has the index of a function of an input exactly if it stands for this function. -/
theorem functionIndex_eq_iff (sound : program.Sound inputs) {owner : ModuleId}
    {module : ObjectModule} (here : program.modules[owner]? = some module) {position : Nat}
    (small : position < module.functions.size) :
    program.functionIndex id = .ok (program.functionBase owner + position) ↔
      ∃ symbol place, program.symbols.get id = .ok symbol ∧
        symbol.target = .function (.defined owner place) ∧ place.toNat = position := by
  constructor
  · intro h
    generalize same : program.functionBase owner + position = index at h
    cases functionAt_of_functionIndex h with
    | @defined symbol other place found stands target input =>
      -- Both functions are in bounds, so that one index means one function.
      obtain ⟨there, at_other, has⟩ := sound.target_within stands other (by rw [target]; rfl)
      rw [target] at has
      have equal : countBefore (·.functions.size) program.modules owner + position =
          countBefore (·.functions.size) program.modules other + place.toNat := by
        unfold functionBase at same
        omega
      obtain ⟨rfl, rfl⟩ := countBefore_add_inj _ here at_other small has equal
      exact ⟨symbol, place, stands, target, rfl⟩
    | imported _ _ _ _ _ there =>
      have before := lt_functionBase_of_import there owner
      omega
    | supplied _ _ there =>
      have before := lt_functionBase_of_synthetic there owner
      omega
  · rintro ⟨symbol, place, stands, target, rfl⟩
    have input : program.input owner = .ok module := existing_eq_ok.2 here
    refine bind_eq_ok.2 ⟨symbol, stands, ?_⟩
    simp only [target]
    exact bind_eq_ok.2 ⟨module, input, rfl⟩

end Program

end StaticLink
