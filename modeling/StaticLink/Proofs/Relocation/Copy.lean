import StaticLink.Proofs.Relocation.Operand
import StaticLink.Proofs.Relocation.Overwrite
import StaticLink.Proofs.Steps
import StaticLink.Program.Relocation

/-!
# Copying a range with its relocations

Relocations are applied one after the other to the same bytes, and each of them reads its operand
before it writes it. When their operands are apart, none of this order shows: every operand is
computed from the bytes of the input.

* `Section.operands`: the relocations of a section that apply to a range;
  `Section.OperandsApart`: their operands do not overlap.
* `Program.Rewrites`: the new bytes of one operand.
* `Program.Relocated`: what a copied range looks like, without an order of steps.
* `Program.relocate_eq_ok_iff`: copying succeeds exactly with such a result, and
  `Program.relocate_perm` draws the conclusion that the order of relocations does not matter.
* `Program.relocate_frame`: bytes outside of the operands stay in any case.
-/

namespace StaticLink

/-! ## The operands of a range -/

namespace Section

/-- Where the operand of a relocation starts in the input. -/
def position (found : Section) (relocation : Relocation) : Nat :=
  found.header.range.start + relocation.offset.toNat

/-- The relocations of the section whose operands start in `range`. -/
def operands (found : Section) (range : Span) : List Relocation :=
  found.relocations.toList.filter fun relocation => found.position relocation ∈ range

/-- Where the operand starts among the bytes from position `origin` of the input on. -/
def start (found : Section) (origin : Nat) (relocation : Relocation) : Nat :=
  found.position relocation - origin

/-- Whether byte `i` from position `origin` on belongs to the operand. -/
def Covers (found : Section) (origin : Nat) (relocation : Relocation) (i : Nat) : Prop :=
  found.start origin relocation ≤ i ∧
    i < found.start origin relocation + relocation.kind.encoding.width

/-- Two relocations whose operands do not overlap. -/
def Apart (first second : Relocation) : Prop :=
  first.offset.toNat + first.kind.encoding.width ≤ second.offset.toNat ∨
    second.offset.toNat + second.kind.encoding.width ≤ first.offset.toNat

instance (first second : Relocation) : Decidable (Apart first second) :=
  inferInstanceAs (Decidable (_ ∨ _))

theorem Apart.symm {first second : Relocation} (apart : Apart first second) :
    Apart second first := Or.symm apart

/-- No two operands that start in `range` overlap. -/
def OperandsApart (found : Section) (range : Span) : Prop :=
  (found.operands range).Pairwise Apart

instance (found : Section) (range : Span) : Decidable (found.OperandsApart range) :=
  inferInstanceAs (Decidable (List.Pairwise _ _))

end Section

namespace Program

variable {program : Program} {owner : ModuleId} {relocation : Relocation}
  {position start : Nat} {bytes result : Bytes}

/-! ## One operand -/

/-- What takes the place of an operand. -/
def Rewrites (program : Program) (owner : ModuleId) (relocation : Relocation)
    (old new : Bytes) : Prop :=
  ∃ current value, relocation.kind.encoding.decode old = .ok current ∧
    program.operandValue owner relocation current = .ok value ∧
    new = relocation.kind.encoding.encode value

theorem Rewrites.length {old new : Bytes} (rewrites : program.Rewrites owner relocation old new) :
    new.length = relocation.kind.encoding.width := by
  obtain ⟨current, value, -, -, rfl⟩ := rewrites
  exact Relocation.Encoding.length_encode _ _

/-- A relocation that succeeds overwrites the operand with what takes its place. -/
theorem relocateOperand_eq_ok_iff :
    program.relocateOperand owner relocation position start bytes = .ok result ↔
      start + relocation.kind.encoding.width ≤ bytes.length ∧
      ∃ new, program.Rewrites owner relocation
          (bytes.window start relocation.kind.encoding.width) new ∧
        result = bytes.overwrite start new := by
  constructor
  · intro h
    obtain ⟨operand, rest, current, value, whole, width, decoded, computed, rfl⟩ :=
      exists_of_relocateOperand_eq_ok h
    -- There is an operand, so that `start` is inside the bytes.
    have total := congrArg List.length whole
    rw [List.length_drop, List.length_append, width] at total
    have positive := Relocation.Encoding.width_pos relocation.kind.encoding
    have old : bytes.window start relocation.kind.encoding.width = operand := by
      rw [Bytes.window, whole, ← width, List.take_left]
    have behind : rest = bytes.drop (start + relocation.kind.encoding.width) := by
      rw [← List.drop_drop, whole, ← width, List.drop_left]
    refine ⟨by omega, relocation.kind.encoding.encode value, ?_, ?_⟩
    · rw [old]
      exact ⟨current, value, decoded, computed, rfl⟩
    · rw [Bytes.overwrite, Relocation.Encoding.length_encode, behind]
  · rintro ⟨inside, new, ⟨current, value, decoded, computed, rfl⟩, rfl⟩
    have enough :
        Bytes.hasAtLeast (bytes.drop start) relocation.kind.encoding.width = true := by
      rw [Bytes.hasAtLeast_iff, List.length_drop]
      omega
    have split : Bytes.splitExactly? (bytes.drop start) relocation.kind.encoding.width =
        some (bytes.window start relocation.kind.encoding.width,
          bytes.drop (start + relocation.kind.encoding.width)) := by
      rw [Bytes.splitExactly?, if_pos enough, List.drop_drop, Bytes.window]
    unfold relocateOperand
    simp only [split, decoded, computed]
    rw [Bytes.overwrite, Relocation.Encoding.length_encode]
    rfl

/-! ## All operands of a range -/

/-- The bytes `result` are `original`, the bytes of the input from position `origin` on, with some
operands rewritten. -/
structure Relocated (program : Program) (owner : ModuleId) (found : Section) (origin : Nat)
    (operands : List Relocation) (original result : Bytes) : Prop where
  length : result.length = original.length
  /-- Bytes outside of the operands stay. -/
  frame : ∀ i, (∀ relocation ∈ operands, ¬ found.Covers origin relocation i) →
    result[i]? = original[i]?
  /-- Each operand is rewritten from what it is in the input. -/
  operand : ∀ relocation ∈ operands,
    found.start origin relocation + relocation.kind.encoding.width ≤ original.length ∧
      program.Rewrites owner relocation
        (original.window (found.start origin relocation) relocation.kind.encoding.width)
        (result.window (found.start origin relocation) relocation.kind.encoding.width)

variable {found : Section} {origin : Nat} {operands : List Relocation} {original : Bytes}

theorem Relocated.nil_iff :
    program.Relocated owner found origin [] original result ↔ result = original := by
  constructor
  · intro relocated
    apply List.ext_getElem?
    intro i
    exact relocated.frame i (by simp)
  · rintro rfl
    exact ⟨rfl, fun _ _ => rfl, by simp⟩

/-- No byte belongs to two operands that are apart. -/
theorem not_covers_of_apart {first second : Relocation} (apart : Section.Apart first second)
    (one : origin ≤ found.position first) (two : origin ≤ found.position second) {i : Nat}
    (covers : found.Covers origin first i) : ¬ found.Covers origin second i := by
  -- Both operands start behind the origin, so that nothing is lost in the subtractions.
  unfold Section.Covers Section.start Section.position at *
  rcases apart with before | behind <;> omega

/-- What is known of bytes of which one operand is overwritten. -/
theorem overwrite_operand {new : Bytes}
    (inside : found.start origin relocation + relocation.kind.encoding.width ≤ original.length)
    (width : new.length = relocation.kind.encoding.width) :
    (original.overwrite (found.start origin relocation) new).length = original.length ∧
    (original.overwrite (found.start origin relocation) new).window
      (found.start origin relocation) relocation.kind.encoding.width = new ∧
    ∀ i, ¬ found.Covers origin relocation i →
      (original.overwrite (found.start origin relocation) new)[i]? = original[i]? := by
  have fits : found.start origin relocation + new.length ≤ original.length := by omega
  refine ⟨Bytes.length_overwrite fits, ?_, ?_⟩
  · rw [← width]
    exact Bytes.window_overwrite fits
  · intro i apart
    rw [Section.Covers, ← width] at apart
    exact Bytes.getElem?_overwrite_of_apart fits apart

/-- Operands that are apart are rewritten one after the other. -/
theorem Relocated.cons_iff (after : origin ≤ found.position relocation)
    (afters : ∀ other ∈ operands, origin ≤ found.position other)
    (apart : ∀ other ∈ operands, Section.Apart relocation other) :
    program.Relocated owner found origin (relocation :: operands) original result ↔
      ∃ next, program.relocateOperand owner relocation position
          (found.start origin relocation) original = .ok next ∧
        program.Relocated owner found origin operands next result := by
  have mine (i : Nat) (covers : found.Covers origin relocation i) (other : Relocation)
      (member : other ∈ operands) : ¬ found.Covers origin other i :=
    not_covers_of_apart (apart other member) after (afters other member) covers
  have theirs (other : Relocation) (member : other ∈ operands) (i : Nat)
      (covers : found.Covers origin other i) : ¬ found.Covers origin relocation i :=
    not_covers_of_apart (apart other member).symm (afters other member) after covers
  constructor
  · -- The first step writes what is in the result, and the rest makes up the difference.
    intro relocated
    obtain ⟨inside, rewrites⟩ := relocated.operand relocation List.mem_cons_self
    obtain ⟨size, holds, outside⟩ := overwrite_operand inside rewrites.length
    refine ⟨_, relocateOperand_eq_ok_iff.2 ⟨inside, _, rewrites, rfl⟩, ?_, ?_, ?_⟩
    · rw [relocated.length, size]
    · intro i others
      by_cases covers : found.Covers origin relocation i
      · -- The operand already holds what it holds in the end.
        exact (Bytes.getElem?_of_window_eq holds covers.1 covers.2).symm
      · rw [outside i covers]
        apply relocated.frame
        intro other member
        rcases List.mem_cons.1 member with rfl | member
        · exact covers
        · exact others other member
    · -- The other operands are still those of the input.
      intro other member
      obtain ⟨inside, rewrites⟩ := relocated.operand other (List.mem_cons_of_mem _ member)
      rw [size, Bytes.window_congr fun i first last =>
        outside i (theirs other member i ⟨first, last⟩)]
      exact ⟨inside, rewrites⟩
  · rintro ⟨next, first, relocated⟩
    obtain ⟨inside, new, rewrites, rfl⟩ := relocateOperand_eq_ok_iff.1 first
    obtain ⟨size, holds, outside⟩ := overwrite_operand inside rewrites.length
    refine ⟨relocated.length.trans size, ?_, ?_⟩
    · intro i others
      rw [relocated.frame i fun other member => others other (List.mem_cons_of_mem _ member)]
      exact outside i (others relocation List.mem_cons_self)
    · intro other member
      rcases List.mem_cons.1 member with rfl | member
      · -- No later step touches the operand.
        rw [Bytes.window_congr fun i first last => relocated.frame i (mine i ⟨first, last⟩), holds]
        exact ⟨inside, rewrites⟩
      · obtain ⟨inside, rewrites⟩ := relocated.operand other member
        rw [size, Bytes.window_congr fun i first last =>
          outside i (theirs other member i ⟨first, last⟩)] at *
        exact ⟨inside, rewrites⟩

/-- It does not matter in which order the operands are listed. -/
theorem Relocated.congr {other : Section} {others : List Relocation}
    (header : other.header = found.header)
    (same : ∀ relocation, relocation ∈ others ↔ relocation ∈ operands)
    (relocated : program.Relocated owner found origin operands original result) :
    program.Relocated owner other origin others original result := by
  have start : other.start origin = found.start origin := by
    funext relocation
    rw [Section.start, Section.position, header]
    rfl
  refine ⟨relocated.length, ?_, ?_⟩
  · intro i outside
    apply relocated.frame
    intro relocation member
    have apart := outside relocation ((same relocation).2 member)
    rw [Section.Covers, start] at apart
    exact apart
  · intro relocation member
    rw [start]
    exact relocated.operand relocation ((same relocation).1 member)

/-! ## Copying -/

variable {range : Span}

theorem start_le_position (member : relocation ∈ found.operands range) :
    range.start ≤ found.position relocation := by
  have within := of_decide_eq_true (List.mem_filter.1 member).2
  exact (Span.mem_def.1 within).1

/-- A run of steps over operands that are apart succeeds exactly with what they come to. -/
theorem foldlM_relocateOperand_eq_ok_iff
    (afters : ∀ other ∈ operands, origin ≤ found.position other)
    (apart : operands.Pairwise Section.Apart) :
    operands.foldlM (fun bytes relocation => program.relocateOperand owner relocation
        (found.position relocation) (found.start origin relocation) bytes) original = .ok result ↔
      program.Relocated owner found origin operands original result := by
  -- The bytes change from step to step, so that the claim is about any of them.
  induction operands generalizing original with
  | nil =>
    rw [Relocated.nil_iff, List.foldlM_nil, eq_comm]
    constructor
    · exact Except.ok.inj
    · exact congrArg Except.ok
  | cons relocation operands ih =>
    obtain ⟨after, afters⟩ := List.forall_mem_cons.1 afters
    obtain ⟨apart, others⟩ := List.pairwise_cons.1 apart
    rw [List.foldlM_cons, bind_eq_ok, Relocated.cons_iff after afters apart]
    apply exists_congr
    intro next
    rw [ih afters others]

/-- Copying goes through the relocations that start in the range. -/
theorem relocate_eq_foldlM {range : Span} : program.relocate owner found range = (do
    let module ← program.input owner
    (found.operands range).foldlM (fun bytes relocation => program.relocateOperand owner
      relocation (found.position relocation) (found.start range.start relocation) bytes)
      (← module.slice range)) := by
  simp only [Section.operands, List.foldlM_filter, decide_eq_true_eq]
  rfl

/-- Copying a range whose operands are apart succeeds exactly with what they come to. -/
theorem relocate_eq_ok_iff (apart : found.OperandsApart range) :
    program.relocate owner found range = .ok result ↔
      ∃ module original, program.input owner = .ok module ∧ module.slice range = .ok original ∧
        program.Relocated owner found range.start (found.operands range) original result := by
  have steps (original : Bytes) :
      (found.operands range).foldlM (fun bytes relocation => program.relocateOperand owner
        relocation (found.position relocation) (found.start range.start relocation) bytes)
        original = .ok result ↔
      program.Relocated owner found range.start (found.operands range) original result :=
    foldlM_relocateOperand_eq_ok_iff (fun _ member => start_le_position member) apart
  rw [relocate_eq_foldlM]
  constructor
  · intro h
    obtain ⟨module, here, h⟩ := bind_eq_ok.1 h
    obtain ⟨original, copied, h⟩ := bind_eq_ok.1 h
    exact ⟨module, original, here, copied, (steps original).1 h⟩
  · rintro ⟨module, original, here, copied, relocated⟩
    refine bind_eq_ok.2 ⟨module, here, bind_eq_ok.2 ⟨original, copied, ?_⟩⟩
    exact (steps original).2 relocated

/-- The order of the relocations of a section does not matter where its operands are apart. -/
theorem relocate_perm {shuffled : Section} (apart : found.OperandsApart range)
    (header : shuffled.header = found.header)
    (perm : shuffled.relocations.toList.Perm found.relocations.toList)
    (h : program.relocate owner found range = .ok result) :
    program.relocate owner shuffled range = .ok result := by
  have position : shuffled.position = found.position := by
    funext relocation
    rw [Section.position, header, Section.position]
  have perm' : (shuffled.operands range).Perm (found.operands range) := by
    rw [Section.operands, position]
    exact perm.filter _
  have apart' : shuffled.OperandsApart range :=
    (perm'.pairwise_iff Section.Apart.symm).2 apart
  obtain ⟨module, original, here, copied, relocated⟩ := (relocate_eq_ok_iff apart).1 h
  exact (relocate_eq_ok_iff apart').2 ⟨module, original, here, copied,
    relocated.congr header fun relocation => perm'.mem_iff⟩

/-- Steps over any operands keep the bytes outside of them. -/
theorem foldlM_relocateOperand_frame
    (h : operands.foldlM (fun bytes relocation => program.relocateOperand owner relocation
      (found.position relocation) (found.start origin relocation) bytes) original = .ok result) :
    result.length = original.length ∧ ∀ i,
      (∀ relocation ∈ operands, ¬ found.Covers origin relocation i) →
        result[i]? = original[i]? := by
  refine foldlM_keeps_mem (fun bytes => bytes.length = original.length ∧ ∀ i,
    (∀ relocation ∈ operands, ¬ found.Covers origin relocation i) → bytes[i]? = original[i]?) h ?_
    ⟨rfl, fun _ _ => rfl⟩
  rintro before relocation after member step ⟨length, framed⟩
  obtain ⟨inside, new, rewrites, rfl⟩ := relocateOperand_eq_ok_iff.1 step
  obtain ⟨size, -, outside⟩ := overwrite_operand inside rewrites.length
  exact ⟨size.trans length, fun i others =>
    (outside i (others relocation member)).trans (framed i others)⟩

/-- Whatever the operands are, bytes outside of them stay. -/
theorem relocate_frame (h : program.relocate owner found range = .ok result) :
    ∃ module original, program.input owner = .ok module ∧ module.slice range = .ok original ∧
      result.length = original.length ∧ ∀ i,
        (∀ relocation ∈ found.operands range, ¬ found.Covers range.start relocation i) →
          result[i]? = original[i]? := by
  rw [relocate_eq_foldlM] at h
  obtain ⟨module, here, h⟩ := bind_eq_ok.1 h
  obtain ⟨original, copied, h⟩ := bind_eq_ok.1 h
  exact ⟨module, original, here, copied, foldlM_relocateOperand_frame h⟩

end Program

end StaticLink
