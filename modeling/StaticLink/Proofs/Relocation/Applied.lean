import StaticLink.Proofs.Relocation.Copy

/-!
# One relocation among others

Relocations are applied one after the other, and their operands may overlap. Each of them reads what
its operand is when its turn comes, and what it writes stays if no later one touches it.

* `Program.Applied`: the turn of one relocation in the copy of a range.
* `Program.exists_applied`: every relocation whose operand starts in a copied range has its turn.
-/

namespace StaticLink

namespace Program

/-- Between the relocations `before` and those `after` it, a relocation of section `found` is applied
to bytes from position `origin` of input `owner` on. They are `original` in the input, and they end
up as `result`. The operand is `current` then, and it becomes `value`, as far as its encoding can
hold it. -/
structure Applied (program : Program) (owner : ModuleId) (found : Section) (origin : Nat)
    (original result : Bytes) (before : List Relocation) (relocation : Relocation)
    (after : List Relocation) (current value : Int) : Prop where
  decoded : ∃ bytes : Bytes,
    before.foldlM (fun bytes relocation => program.relocateOperand owner relocation
      (found.position relocation) (found.start origin relocation) bytes) original = .ok bytes ∧
    relocation.kind.encoding.decode
      (bytes.window (found.start origin relocation) relocation.kind.encoding.width) = .ok current
  /-- The operand is that of the input if those before do not touch it. -/
  untouched : (∀ earlier ∈ before, Section.Apart relocation earlier) →
    relocation.kind.encoding.decode
      (original.window (found.start origin relocation) relocation.kind.encoding.width) = .ok current
  computed : program.operandValue owner relocation current = .ok value
  /-- The new operand stays if those after do not touch it. -/
  kept : (∀ later ∈ after, Section.Apart relocation later) →
    relocation.kind.encoding.decode
      (result.window (found.start origin relocation) relocation.kind.encoding.width) =
        .ok (relocation.kind.encoding.reduce value)

variable {program : Program} {owner : ModuleId} {found : Section} {origin : Nat} {range : Span}
  {operands before after : List Relocation} {relocation : Relocation} {original result : Bytes}

/-- Steps over operands that are apart from another one do not touch it. -/
theorem window_foldlM_relocateOperand (behind : origin ≤ found.position relocation)
    (others : ∀ other ∈ operands, origin ≤ found.position other)
    (apart : ∀ other ∈ operands, Section.Apart relocation other)
    (h : operands.foldlM (fun bytes relocation => program.relocateOperand owner relocation
      (found.position relocation) (found.start origin relocation) bytes) original = .ok result) :
    result.window (found.start origin relocation) relocation.kind.encoding.width =
      original.window (found.start origin relocation) relocation.kind.encoding.width := by
  obtain ⟨-, outside⟩ := foldlM_relocateOperand_frame h
  refine Bytes.window_congr fun i first last => outside i fun other member => ?_
  exact not_covers_of_apart (apart other member) behind (others other member) ⟨first, last⟩

/-- Every relocation whose operand starts in a copied range is applied, after those that are listed
before it. -/
theorem exists_applied (h : program.relocate owner found range = .ok result)
    (split : found.operands range = before ++ relocation :: after) :
    ∃ module original current value, program.input owner = .ok module ∧
      module.slice range = .ok original ∧
      program.Applied owner found range.start original result before relocation after current
        value := by
  have starts (other : Relocation) (member : other ∈ before ++ relocation :: after) :
      range.start ≤ found.position other := start_le_position (split ▸ member)
  obtain ⟨earlier, others⟩ := List.forall_mem_append.1 starts
  obtain ⟨behind, later⟩ := List.forall_mem_cons.1 others
  rw [relocate_eq_foldlM, split] at h
  obtain ⟨module, input, h⟩ := bind_eq_ok.1 h
  obtain ⟨original, slice, h⟩ := bind_eq_ok.1 h
  rw [List.foldlM_append] at h
  obtain ⟨bytes, first, h⟩ := bind_eq_ok.1 h
  rw [List.foldlM_cons] at h
  obtain ⟨next, step, rest⟩ := bind_eq_ok.1 h
  obtain ⟨inside, _, ⟨current, value, decoded, computed, rfl⟩, rfl⟩ :=
    relocateOperand_eq_ok_iff.1 step
  refine ⟨module, original, current, value, input, slice, ⟨bytes, first, decoded⟩, ?_, computed, ?_⟩
  · intro apart
    rw [← window_foldlM_relocateOperand behind earlier apart first]
    exact decoded
  · intro apart
    have width := Relocation.Encoding.length_encode relocation.kind.encoding value
    rw [window_foldlM_relocateOperand behind later apart rest,
      (overwrite_operand inside width).2.1, Relocation.Encoding.decode_encode]

end Program

end StaticLink
