import StaticLink.Program

/-!
# Relocation

The contents of an input are copied into the linked module as they are, apart from the operands
that its relocations name. Such an operand is decoded, and a new value is written over it in the
same encoding and width, so that nothing around it moves.

* `Program.operandValue`: the new value of an operand.
* `Program.relocateOperand`: one relocation applied to some bytes.
* `Program.relocate`: a part of a section with all its relocations applied.
-/

namespace StaticLink

namespace Program

/-- The new value of an operand that refers to symbol `id` and is `current` in input `owner`. -/
def symbolValue (program : Program) (owner : ModuleId) (relocation : Relocation) (id : SymbolId)
    (current : Int) : Except Error Int := do
  let kind := relocation.kind
  let symbol ← program.symbols.get id
  let mismatch := Error.invalidRelocation kind relocation.offset symbol.name
  let expect (wanted : Target.Kind) : Except Error Unit :=
    if symbol.target.kind = wanted then .ok () else .error mismatch
  if kind.isMemoryAddress then
    expect .data
    return (← program.dataAddress id) + relocation.addend.toInt
  else if kind.isTableIndex then
    expect .function
    match ← program.tableSlot owner (current % wordLimit).toNat with
    | some slot => return slot
    | none =>
      let module ← program.input owner
      throw (.unsupported (.slotOutsideElements (current % longLimit).toNat module.name))
  else match kind with
    | .functionIndexLeb =>
      expect .function
      return ← program.functionIndex id
    | .globalIndexLeb | .globalIndexI32 =>
      expect .global
      return ← program.globalIndex id
    | .tableNumberLeb => throw mismatch
    | _ => throw (.unhandledRelocation kind)

/-- The new value of an operand that is `current` in input `owner`. -/
def operandValue (program : Program) (owner : ModuleId) (relocation : Relocation)
    (current : Int) : Except Error Int := do
  if relocation.kind = .typeIndexLeb then
    return ← inWord (program.typeBase owner + relocation.index.toNat)
  match ← (← program.input owner).slot relocation.index with
  | .symbol id => program.symbolValue owner relocation id current
  | .table _ =>
    -- There is one table in the linked module.
    if relocation.kind = .tableNumberLeb then return 0
    throw (.unhandledRelocation relocation.kind)
  | .wholeSection _ => throw (.unhandledRelocation relocation.kind)

/-- Applies a relocation to the operand at `start` of `bytes`, which is at `position` of input
`owner`. -/
def relocateOperand (program : Program) (owner : ModuleId) (relocation : Relocation)
    (position start : Nat) (bytes : Bytes) : Except Error Bytes := do
  let encoding := relocation.kind.encoding
  match Bytes.splitExactly? (bytes.drop start) encoding.width with
  | none => throw (.malformed ⟨.relocationOutOfBounds relocation.offset, position⟩)
  | some (operand, rest) =>
    match encoding.decode operand with
    | .error defect => throw (.malformed ⟨defect, relocation.offset.toNat⟩)
    | .ok current =>
      let value ← program.operandValue owner relocation current
      return bytes.take start ++ encoding.encode value ++ rest

/-- A relocated operand takes the place of the old one, so that the bytes around it do not move. -/
theorem exists_of_relocateOperand_eq_ok {program : Program} {owner : ModuleId}
    {relocation : Relocation} {position start : Nat} {bytes result : Bytes}
    (h : program.relocateOperand owner relocation position start bytes = .ok result) :
    ∃ operand rest current value,
      bytes.drop start = operand ++ rest ∧ operand.length = relocation.kind.encoding.width ∧
      relocation.kind.encoding.decode operand = .ok current ∧
      program.operandValue owner relocation current = .ok value ∧
      result = bytes.take start ++ relocation.kind.encoding.encode value ++ rest := by
  unfold relocateOperand at h
  dsimp only at h
  split at h
  · cases h
  · next operand rest split =>
    obtain ⟨whole, width⟩ := Bytes.append_of_splitExactly? split
    split at h
    · cases h
    · next current decoded =>
      obtain ⟨value, new, done⟩ := bind_eq_ok.1 h
      cases done
      exact ⟨operand, rest, current, value, whole, width, decoded, new, rfl⟩

theorem length_relocateOperand {program : Program} {owner : ModuleId} {relocation : Relocation}
    {position start : Nat} {bytes result : Bytes}
    (h : program.relocateOperand owner relocation position start bytes = .ok result) :
    result.length = bytes.length := by
  obtain ⟨operand, rest, current, value, whole, width, -, -, rfl⟩ :=
    exists_of_relocateOperand_eq_ok h
  have total := congrArg List.length (List.take_append_drop start bytes)
  rw [whole] at total
  simp only [List.length_append, Relocation.Encoding.length_encode] at total ⊢
  omega

/-- The bytes of `range` in input `owner`, with those relocations of `found` applied, one after the
other, whose operands start there. The range is a part of that section. -/
def relocate (program : Program) (owner : ModuleId) (found : Section) (range : Span) :
    Except Error Bytes := do
  let module ← program.input owner
  found.relocations.toList.foldlM
    (fun bytes relocation =>
      let position := found.header.range.start + relocation.offset.toNat
      if position ∈ range then
        program.relocateOperand owner relocation position (position - range.start) bytes
      else return bytes)
    (← module.slice range)

/-- Steps that keep the length of some bytes keep it one after the other. -/
theorem length_foldlM {α : Type} {step : Bytes → α → Except Error Bytes}
    (same : ∀ bytes item result, step bytes item = .ok result → result.length = bytes.length)
    {items : List α} {bytes result : Bytes} (h : items.foldlM step bytes = .ok result) :
    result.length = bytes.length := by
  induction items generalizing bytes with
  | nil => cases h; rfl
  | cons item rest ih =>
    rw [List.foldlM_cons] at h
    obtain ⟨next, first, later⟩ := bind_eq_ok.1 h
    exact (ih later).trans (same _ _ _ first)

/-- A copied range keeps its length. -/
theorem length_relocate {program : Program} {owner : ModuleId} {found : Section} {range : Span}
    {result : Bytes} (h : program.relocate owner found range = .ok result) :
    result.length = range.size := by
  obtain ⟨module, -, h⟩ := bind_eq_ok.1 h
  obtain ⟨bytes, copied, h⟩ := bind_eq_ok.1 h
  refine (length_foldlM ?_ h).trans (Bytes.length_of_slice? (existing_eq_ok.1 copied))
  intro bytes relocation result step
  dsimp only at step
  split at step
  · exact length_relocateOperand step
  · cases step
    rfl

end Program

end StaticLink
