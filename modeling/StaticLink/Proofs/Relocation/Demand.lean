import StaticLink.Program.Relocation
import StaticLink.Proofs.Steps

/-!
# What a relocation demands

The value that an operand must be given, one rule for each family of relocations. The rules speak
of the entry of the input's symbol table that the relocation names, and of the final record of the
symbol that the entry leads to.

* `Program.LeadsTo`: what an entry of an input's symbol table leads to.
* `Program.Demands`: the rules.
* `Program.demands_of_operandValue`: an operand gets what is demanded.
-/

namespace StaticLink

theorem ObjectModule.slot_eq_ok_iff {module : ObjectModule} {index : UInt32} {slot : Slot} :
    module.slot index = .ok slot ↔ module.slots[index.toNat]? = some slot := by
  unfold ObjectModule.slot
  split
  · next found => rw [found, Except.ok.injEq, Option.some.injEq]
  · next missing => simp [missing]

namespace Program

/-- Entry `index` of the symbol table of input `owner` leads to `slot`. -/
def LeadsTo (program : Program) (owner : ModuleId) (index : UInt32) (slot : Slot) : Prop :=
  ∃ module, program.input owner = .ok module ∧ module.slots[index.toNat]? = some slot

/-- What an operand of input `owner` must become if it was `current`. -/
inductive Demands (program : Program) (owner : ModuleId) (relocation : Relocation)
    (current : Int) : (value : Int) → Prop
  /-- The type of the input behind those of the inputs before it. -/
  | typeIndex (kind : relocation.kind = .typeIndexLeb) :
    Demands program owner relocation current (program.typeBase owner + relocation.index.toNat)
  /-- The index of the function that the symbol stands for. -/
  | functionIndex {id : SymbolId} {index : Nat} (kind : relocation.kind = .functionIndexLeb)
      (leads : program.LeadsTo owner relocation.index (.symbol id))
      (here : program.functionIndex id = .ok index) :
    Demands program owner relocation current index
  /-- The index of the global that the symbol stands for. -/
  | globalIndex {id : SymbolId} {index : Nat}
      (kind : relocation.kind = .globalIndexLeb ∨ relocation.kind = .globalIndexI32)
      (leads : program.LeadsTo owner relocation.index (.symbol id))
      (here : program.globalIndex id = .ok index) :
    Demands program owner relocation current index
  /-- The address of the data that the symbol stands for, and so many bytes more. -/
  | memoryAddress {id : SymbolId} {address : Nat} (kind : relocation.kind.isMemoryAddress = true)
      (leads : program.LeadsTo owner relocation.index (.symbol id))
      (here : program.dataAddress id = .ok address) :
    Demands program owner relocation current (address + relocation.addend.toInt)
  /-- The slot of the linked table that has the entry of the slot where the operand pointed. -/
  | tableIndex {id : SymbolId} {symbol : Symbol} {slot : Nat}
      (kind : relocation.kind.isTableIndex = true)
      (leads : program.LeadsTo owner relocation.index (.symbol id))
      (stands : program.symbols.get id = .ok symbol) (function : symbol.target.kind = .function)
      (here : program.tableSlot owner (current % wordLimit).toNat = .ok (some slot)) :
    Demands program owner relocation current slot
  /-- There is one table. -/
  | tableNumber {index : UInt32} (kind : relocation.kind = .tableNumberLeb)
      (leads : program.LeadsTo owner relocation.index (.table index)) :
    Demands program owner relocation current 0

variable {program : Program} {owner : ModuleId} {relocation : Relocation} {current value : Int}
  {id : SymbolId}

/-- The rules for entries that lead to symbols. -/
theorem demands_of_symbolValue (leads : program.LeadsTo owner relocation.index (.symbol id))
    (h : program.symbolValue owner relocation id current = .ok value) :
    program.Demands owner relocation current value := by
  unfold symbolValue at h
  obtain ⟨symbol, stands, h⟩ := bind_eq_ok.1 h
  split at h
  · next memory =>
    obtain ⟨-, -, h⟩ := bind_eq_ok.1 h
    obtain ⟨address, here, rfl⟩ := return_eq_ok.1 h
    exact .memoryAddress memory leads here
  · split at h
    · next table =>
      obtain ⟨⟨⟩, expected, h⟩ := bind_eq_ok.1 h
      have function : symbol.target.kind = .function := by
        dsimp only at expected
        split at expected
        · assumption
        · cases expected
      obtain ⟨slot, here, h⟩ := bind_eq_ok.1 h
      rcases slot with _ | slot
      · -- A slot that no element segment fills is an error.
        obtain ⟨module, -, h⟩ := bind_eq_ok.1 h
        cases h
      · cases h
        exact .tableIndex table leads stands function here
    · split at h
      · next kind =>
        obtain ⟨-, -, h⟩ := bind_eq_ok.1 h
        obtain ⟨index, here, rfl⟩ := return_eq_ok.1 h
        exact .functionIndex kind leads here
      · next kind =>
        obtain ⟨-, -, h⟩ := bind_eq_ok.1 h
        obtain ⟨index, here, rfl⟩ := return_eq_ok.1 h
        exact .globalIndex (.inl kind) leads here
      · next kind =>
        obtain ⟨-, -, h⟩ := bind_eq_ok.1 h
        obtain ⟨index, here, rfl⟩ := return_eq_ok.1 h
        exact .globalIndex (.inr kind) leads here
      · cases h
      · cases h

/-- An operand for a type becomes the number of this type, which is a word. -/
theorem typeIndex_of_operandValue (kind : relocation.kind = .typeIndexLeb)
    (h : program.operandValue owner relocation current = .ok value) :
    program.typeBase owner + relocation.index.toNat < wordLimit ∧
      value = (program.typeBase owner + relocation.index.toNat : Nat) := by
  rw [operandValue, if_pos kind] at h
  obtain ⟨number, here, rfl⟩ := return_eq_ok.1 h
  obtain ⟨small, rfl⟩ := inWord_eq_ok.1 here
  exact ⟨small, rfl⟩

/-- An operand gets the value that is demanded. -/
theorem demands_of_operandValue (h : program.operandValue owner relocation current = .ok value) :
    program.Demands owner relocation current value := by
  by_cases kind : relocation.kind = .typeIndexLeb
  · obtain ⟨-, rfl⟩ := typeIndex_of_operandValue kind h
    exact .typeIndex kind
  · rw [operandValue, if_neg kind] at h
    obtain ⟨module, input, h⟩ := bind_eq_ok.1 h
    obtain ⟨slot, entry, h⟩ := bind_eq_ok.1 h
    have leads : program.LeadsTo owner relocation.index slot :=
      ⟨module, input, ObjectModule.slot_eq_ok_iff.1 entry⟩
    rcases slot with id | position | index
    · exact demands_of_symbolValue leads h
    · cases h
    · dsimp only at h
      split at h
      · next kind =>
        cases h
        exact .tableNumber kind leads
      · cases h

end Program

end StaticLink
