import StaticLink.Proofs.Output.Sections
import StaticLink.Proofs.Relocation.Applied

/-!
# How many bytes an operand takes

A relocated operand is always written in the full width of its encoding. A LEB128 number that is
read may be spelled in fewer bytes: then what is written also covers the bytes that follow it.

* `Relocation.Encoding.decodeSized`: an operand with the count of bytes that it takes.
* `Program.Overwrites`: what one relocation does to the bytes of its operand and to those behind it.
* `Program.relocate_widths`: all relocations of a copied range are of this kind.
-/

namespace StaticLink

/-! ## Numbers that take fewer bytes -/

namespace Leb128

variable {bits size : Nat} {bytes : Bytes}

/-- An unsigned number takes the bytes that continue and the one after them. -/
theorem size_of_decodeUnsigned {value : Nat} (h : decodeUnsigned bits bytes = .ok (value, size)) :
    size = (bytes.takeWhile continues).length + 1 := by
  induction bytes generalizing bits value size with
  | nil => cases h
  | cons b rest ih =>
    rcases decodeUnsigned_cons_eq_ok_iff.1 h with
      ⟨ends, -, -, rfl⟩ | ⟨-, more, higher, taken, later, -, rfl⟩
    · rw [List.takeWhile_cons_of_neg (ne_true_of_eq_false ends), List.length_nil]
    · rw [List.takeWhile_cons_of_pos more, List.length_cons, ih later]

/-- So does a signed number. -/
theorem size_of_decodeSigned {value : Int} (h : decodeSigned bits bytes = .ok (value, size)) :
    size = (bytes.takeWhile continues).length + 1 := by
  induction bytes generalizing bits value size with
  | nil => cases h
  | cons b rest ih =>
    rcases decodeSigned_cons_eq_ok_iff.1 h with
      ⟨ends, -, -, rfl⟩ | ⟨-, more, higher, taken, later, -, rfl⟩
    · rw [List.takeWhile_cons_of_neg (ne_true_of_eq_false ends), List.length_nil]
    · rw [List.takeWhile_cons_of_pos more, List.length_cons, ih later]

/-- A number that ends in `bytes` takes all of them exactly if every byte but the last continues. -/
theorem length_takeWhile_continues_iff (ends : (bytes.takeWhile continues).length < bytes.length) :
    (bytes.takeWhile continues).length + 1 = bytes.length ↔
      ∀ b ∈ bytes.dropLast, continues b = true := by
  induction bytes with
  | nil => cases ends
  | cons b rest ih =>
    by_cases more : continues b = true
    · rw [List.takeWhile_cons_of_pos more, List.length_cons, List.length_cons] at ends ⊢
      have later := ih (by omega)
      have follows : rest ≠ [] := List.ne_nil_of_length_pos (by omega)
      rw [List.dropLast_cons_of_ne_nil follows, List.forall_mem_cons, ← later]
      constructor
      · intro whole
        exact ⟨more, by omega⟩
      · intro whole
        omega
    · rw [List.takeWhile_cons_of_neg more, List.length_nil, List.length_cons]
      constructor
      · intro whole
        have alone : rest = [] := List.eq_nil_of_length_eq_zero (by omega)
        rw [alone]
        intro byte member
        cases member
      · intro all
        by_cases alone : rest = []
        · rw [alone, List.length_nil]
        · rw [List.dropLast_cons_of_ne_nil alone] at all
          exact absurd (all b List.mem_cons_self) more

end Leb128

/-! ## Operands that take fewer bytes -/

namespace Relocation.Encoding

variable {encoding : Encoding} {bytes : Bytes} {value : Int} {size : Nat}

/-- Whether the operand is a LEB128 number. -/
def isLeb128 : Encoding → Bool
  | uleb32 | sleb32 | uleb64 | sleb64 => true
  | i32 | i64 => false

/-- The value of the operand at the start of `bytes`, and how many bytes it takes. -/
def decodeSized : Encoding → (bytes : Bytes) → Except Defect (Int × Nat)
  | uleb32, bytes => (Leb128.decodeUnsigned 32 bytes).map fun (value, size) => (value, size)
  | sleb32, bytes => Leb128.decodeSigned 32 bytes
  | uleb64, bytes => (Leb128.decodeUnsigned 64 bytes).map fun (value, size) => (value, size)
  | sleb64, bytes => Leb128.decodeSigned 64 bytes
  | i32, bytes => (decodeWord 4 bytes).map fun value => (value, 4)
  | i64, bytes => (decodeWord 8 bytes).map fun value => (value, 8)

/-- It is the value that is decoded. -/
theorem decode_eq_map_decodeSized (encoding : Encoding) (bytes : Bytes) :
    encoding.decode bytes = (encoding.decodeSized bytes).map Prod.fst := by
  have fixed (width : Nat) : decodeWord width bytes =
      ((decodeWord width bytes).map fun value => (value, width)).map Prod.fst := by
    cases decodeWord width bytes <;> rfl
  cases encoding with
  | uleb32 =>
    rw [decode, decodeSized]
    cases Leb128.decodeUnsigned 32 bytes <;> rfl
  | sleb32 => rfl
  | uleb64 =>
    rw [decode, decodeSized]
    cases Leb128.decodeUnsigned 64 bytes <;> rfl
  | sleb64 => rfl
  | i32 => exact fixed 4
  | i64 => exact fixed 8

theorem exists_decodeSized (h : encoding.decode bytes = .ok value) :
    ∃ size, encoding.decodeSized bytes = .ok (value, size) := by
  rw [decode_eq_map_decodeSized] at h
  rcases sized : encoding.decodeSized bytes with defect | ⟨found, size⟩
  · rw [sized] at h
    cases h
  · rw [sized] at h
    cases h
    exact ⟨size, rfl⟩

/-- A LEB128 operand takes a byte or more, and the bytes that it takes spell it alone. -/
theorem prefixed_decodeSized (leb : encoding.isLeb128 = true) :
    Leb128.Prefixed encoding.decodeSized := by
  cases encoding with
  | uleb32 => exact (Leb128.prefixed_decodeUnsigned 32).map
  | sleb32 => exact Leb128.prefixed_decodeSigned 32
  | uleb64 => exact (Leb128.prefixed_decodeUnsigned 64).map
  | sleb64 => exact Leb128.prefixed_decodeSigned 64
  | i32 => cases leb
  | i64 => cases leb

/-- A LEB128 operand takes the bytes that continue and the one after them. -/
theorem size_of_decodeSized (leb : encoding.isLeb128 = true)
    (h : encoding.decodeSized bytes = .ok (value, size)) :
    size = (bytes.takeWhile Leb128.continues).length + 1 := by
  have unsigned (bits : Nat)
      (h : ((Leb128.decodeUnsigned bits bytes).map
        fun (value, size) => ((value : Int), size)) = .ok (value, size)) :
      size = (bytes.takeWhile Leb128.continues).length + 1 := by
    rcases decoded : Leb128.decodeUnsigned bits bytes with defect | ⟨number, taken⟩
    · rw [decoded] at h
      cases h
    · rw [decoded] at h
      cases h
      exact Leb128.size_of_decodeUnsigned decoded
  cases encoding with
  | uleb32 => exact unsigned 32 h
  | sleb32 => exact Leb128.size_of_decodeSigned h
  | uleb64 => exact unsigned 64 h
  | sleb64 => exact Leb128.size_of_decodeSigned h
  | i32 => cases leb
  | i64 => cases leb

/-- The bytes that an operand takes lie in the window where it is decoded, and spell it. -/
theorem spelled_of_decodeSized (leb : encoding.isLeb128 = true) {start width : Nat}
    (h : encoding.decodeSized (bytes.window start width) = .ok (value, size)) :
    0 < size ∧ size ≤ width ∧ encoding.decodeSized (bytes.window start size) = .ok (value, size) := by
  obtain ⟨positive, first, rest, whole, length, alone⟩ := prefixed_decodeSized leb _ _ _ h
  have fits : size ≤ width := by
    have total := congrArg List.length whole
    rw [Bytes.window, List.length_take, List.length_append] at total
    omega
  -- The bytes that it takes are the first of those in the window.
  have own : bytes.window start size = first := by
    have shorter := congrArg (List.take size) whole
    rw [← length, List.take_left, Bytes.window, List.take_take, length,
      Nat.min_eq_left fits] at shorter
    exact shorter
  have again := alone []
  rw [List.append_nil] at again
  rw [own]
  exact ⟨positive, fits, again⟩

end Relocation.Encoding

/-! ## What is written over them -/

namespace Program

/-- A relocation turns `bytes` into `next`. Its operand starts at `start`, is `current` and takes
`taken` of these bytes, and becomes `value` in as many bytes as the encoding is wide. -/
structure Overwrites (program : Program) (owner : ModuleId) (relocation : Relocation)
    (position start : Nat) (bytes next : Bytes) (taken : Nat) (current value : Int) : Prop where
  inside : start + relocation.kind.encoding.width ≤ bytes.length
  /-- The bytes that the operand takes, without those behind them, spell it. -/
  spelled : relocation.kind.encoding.decodeSized (bytes.window start taken) = .ok (current, taken)
  positive : 0 < taken
  fits : taken ≤ relocation.kind.encoding.width
  /-- They are all that is written over exactly if every one of them but the last continues. -/
  full_iff : taken = relocation.kind.encoding.width ↔
    ∀ b ∈ (bytes.window start relocation.kind.encoding.width).dropLast,
      Leb128.continues b = true
  computed : program.operandValue owner relocation current = .ok value
  /-- The operand and the bytes behind it are written over as far as the encoding is wide. -/
  written : next = bytes.overwrite start (relocation.kind.encoding.encode value)
  frame : ∀ i, ¬ (start ≤ i ∧ i < start + relocation.kind.encoding.width) → next[i]? = bytes[i]?
  behind : next.window (start + taken) (relocation.kind.encoding.width - taken) =
    (relocation.kind.encoding.encode value).drop taken
  /-- The same happens however the operand is spelled, and whatever stood behind it. -/
  respelled : ∀ (other : Bytes) (size : Nat), other.length = bytes.length →
    (∀ i, ¬ (start ≤ i ∧ i < start + relocation.kind.encoding.width) → other[i]? = bytes[i]?) →
    relocation.kind.encoding.decodeSized
      (other.window start relocation.kind.encoding.width) = .ok (current, size) →
    program.relocateOperand owner relocation position start other = .ok next

variable {program : Program} {owner : ModuleId} {found : Section} {relocation : Relocation}
  {range : Span} {position start : Nat} {bytes next result : Bytes}

/-- Every relocation of a LEB128 operand is of this kind. -/
theorem overwrites_of_relocateOperand (leb : relocation.kind.encoding.isLeb128 = true)
    (h : program.relocateOperand owner relocation position start bytes = .ok next) :
    ∃ taken current value,
      program.Overwrites owner relocation position start bytes next taken current value := by
  obtain ⟨inside, new, ⟨current, value, decoded, computed, rfl⟩, written⟩ :=
    relocateOperand_eq_ok_iff.1 h
  have width : (bytes.window start relocation.kind.encoding.width).length =
      relocation.kind.encoding.width := by
    rw [Bytes.window, List.length_take, List.length_drop]
    omega
  have encoded := Relocation.Encoding.length_encode relocation.kind.encoding value
  obtain ⟨taken, sized⟩ := Relocation.Encoding.exists_decodeSized decoded
  obtain ⟨positive, fits, spelled⟩ := Relocation.Encoding.spelled_of_decodeSized leb sized
  have room : start + (relocation.kind.encoding.encode value).length ≤ bytes.length := by omega
  refine ⟨taken, current, value, inside, spelled, positive, fits, ?_, computed, written, ?_, ?_, ?_⟩
  · have count := Relocation.Encoding.size_of_decodeSized leb sized
    have ends := Leb128.length_takeWhile_continues_iff
      (show _ < (bytes.window start relocation.kind.encoding.width).length by omega)
    rw [width, ← count] at ends
    exact ends
  · intro i outside
    rw [written]
    exact Bytes.getElem?_overwrite_of_apart room (by omega)
  · have there := Bytes.window_overwrite room
    rw [← written, encoded] at there
    rw [← there, Bytes.window, Bytes.window, List.drop_take, List.drop_drop]
  · intro other size same outside spelled
    have decoded' : relocation.kind.encoding.decode
        (other.window start relocation.kind.encoding.width) = .ok current := by
      rw [Relocation.Encoding.decode_eq_map_decodeSized, spelled]
      rfl
    refine relocateOperand_eq_ok_iff.2 ⟨by omega, _, ⟨current, value, decoded', computed, rfl⟩, ?_⟩
    rw [written]
    rw [← encoded] at outside
    exact (Bytes.overwrite_congr room same outside).symm

/-- Every LEB128 operand of a copied range is written over in the full width of its encoding, in its
turn, in however many bytes it was spelled. -/
theorem relocate_widths (h : program.relocate owner found range = .ok result) :
    ∃ module original, program.input owner = .ok module ∧ module.slice range = .ok original ∧
      ∀ before relocation after, found.operands range = before ++ relocation :: after →
        relocation.kind.encoding.isLeb128 = true →
        ∃ bytes next taken current value,
          before.foldlM (fun bytes relocation => program.relocateOperand owner relocation
            (found.position relocation) (found.start range.start relocation) bytes) original =
              .ok bytes ∧
          program.Overwrites owner relocation (found.position relocation)
            (found.start range.start relocation) bytes next taken current value ∧
          after.foldlM (fun bytes relocation => program.relocateOperand owner relocation
            (found.position relocation) (found.start range.start relocation) bytes) next =
              .ok result ∧
          -- It is spelled as in the input if those before do not touch it.
          ((∀ earlier ∈ before, Section.Apart relocation earlier) →
            relocation.kind.encoding.decodeSized
              (original.window (found.start range.start relocation) taken) =
                .ok (current, taken)) := by
  rw [relocate_eq_foldlM] at h
  obtain ⟨module, input, h⟩ := bind_eq_ok.1 h
  obtain ⟨original, slice, h⟩ := bind_eq_ok.1 h
  refine ⟨module, original, input, slice, ?_⟩
  intro before relocation after split leb
  have starts (other : Relocation) (member : other ∈ before ++ relocation :: after) :
      range.start ≤ found.position other := start_le_position (split ▸ member)
  obtain ⟨earlier, others⟩ := List.forall_mem_append.1 starts
  obtain ⟨behind, -⟩ := List.forall_mem_cons.1 others
  rw [split, List.foldlM_append] at h
  obtain ⟨bytes, first, h⟩ := bind_eq_ok.1 h
  rw [List.foldlM_cons] at h
  obtain ⟨next, step, rest⟩ := bind_eq_ok.1 h
  obtain ⟨taken, current, value, overwrites⟩ := overwrites_of_relocateOperand leb step
  refine ⟨bytes, next, taken, current, value, first, overwrites, rest, ?_⟩
  intro apart
  -- The bytes that the operand takes are some of those that the steps before leave alone.
  have same := window_foldlM_relocateOperand behind earlier apart first
  have shorter := congrArg (List.take taken) same
  have fits := overwrites.fits
  rw [Bytes.window, Bytes.window, List.take_take, List.take_take, Nat.min_eq_left fits] at shorter
  have spelled := overwrites.spelled
  rw [Bytes.window, shorter] at spelled
  exact spelled

/-! ## A call that takes one byte -/

/-- A range of an input, with the relocations that apply to it and what it comes to. -/
structure RelocatedRange where
  /-- Where its section starts in the input. -/
  start : Nat
  operands : List Relocation
  original : Bytes
  result : Bytes
deriving DecidableEq

/-- The copy of a range of the section at this place of an input. -/
def relocatedRange (program : Program) (owner : ModuleId) (place : Nat) (range : Span) :
    Except Error RelocatedRange := do
  let module ← program.input owner
  let found ← existing module.sections[place]?
  let original ← module.slice range
  let result ← program.relocate owner found range
  return { start := found.header.range.start, operands := found.operands range, original, result }

theorem exists_of_relocatedRange {place : Nat} {copy : RelocatedRange}
    (h : program.relocatedRange owner place range = .ok copy) :
    ∃ module found, program.input owner = .ok module ∧ module.sections[place]? = some found ∧
      found.header.range.start = copy.start ∧ module.slice range = .ok copy.original ∧
      program.relocate owner found range = .ok copy.result ∧
      found.operands range = copy.operands := by
  obtain ⟨module, input, h⟩ := bind_eq_ok.1 h
  obtain ⟨found, here, h⟩ := bind_eq_ok.1 h
  obtain ⟨original, slice, h⟩ := bind_eq_ok.1 h
  obtain ⟨result, done, rfl⟩ := return_eq_ok.1 h
  exact ⟨module, found, input, existing_eq_ok.1 here, rfl, slice, done, rfl⟩

/-- An input whose function calls itself twice: the index takes five bytes, and then one. The second
call is followed by other instructions. -/
def shortCall : List (String × Bytes) :=
  [("short.o",
      [0, 97, 115, 109, 1, 0, 0, 0, 1, 4, 1, 96, 0, 0, 3, 2, 1, 0, 10, 16, 1, 14, 0, 16, 128, 128,
       128, 128, 0, 16, 0, 65, 7, 26, 1, 11, 0, 17, 7, 108, 105, 110, 107, 105, 110, 103, 2, 8, 6,
       1, 0, 0, 0, 1, 102, 0, 19, 10, 114, 101, 108, 111, 99, 46, 67, 79, 68, 69, 2, 2, 0, 4, 0, 0,
       10, 0])]

/-- The copy of its body. -/
theorem relocatedRange_shortCall :
    (ofInputs shortCall {} >>= (·.relocatedRange 0 2 ⟨21, 36⟩)) =
      .ok ⟨20, [⟨.functionIndexLeb, 4, 0, 0⟩, ⟨.functionIndexLeb, 10, 0, 0⟩],
        [14, 0, 16, 128, 128, 128, 128, 0, 16, 0, 65, 7, 26, 1, 11],
        [14, 0, 16, 128, 128, 128, 128, 0, 16, 128, 128, 128, 128, 0, 11]⟩ := by
  decide +kernel

/-- The first operand takes all bytes that are written over, the second one of them. -/
theorem relocate_shortCall_widths :
    ∃ program found result bytes next bytes' current value current' value',
      ofInputs shortCall {} = .ok program ∧
      program.relocate 0 found ⟨21, 36⟩ = .ok result ∧
      program.Overwrites 0 ⟨.functionIndexLeb, 4, 0, 0⟩ 24 3 bytes next 5 current value ∧
      program.Overwrites 0 ⟨.functionIndexLeb, 10, 0, 0⟩ 30 9 bytes' result 1 current' value' := by
  obtain ⟨program, decided, copied⟩ := bind_eq_ok.1 relocatedRange_shortCall
  obtain ⟨module, found, input, -, origin, slice, done, operands⟩ := exists_of_relocatedRange copied
  have position (offset : UInt32) :
      found.position ⟨.functionIndexLeb, offset, 0, 0⟩ = 20 + offset.toNat := by
    rw [Section.position, origin]
  have start (offset : UInt32) :
      found.start 21 ⟨.functionIndexLeb, offset, 0, 0⟩ = 20 + offset.toNat - 21 := by
    rw [Section.start, position]
  obtain ⟨_, original, input', slice', each⟩ := relocate_widths done
  obtain rfl := Except.ok.inj (input.symm.trans input')
  obtain rfl := Except.ok.inj (slice.symm.trans slice')
  obtain ⟨bytes, next, taken, current, value, first, overwrites, -⟩ := each [] _ [_] operands rfl
  obtain ⟨bytes', next', taken', current', value', -, overwrites', last, spelled⟩ :=
    each [_] _ [] operands rfl
  cases first
  cases last
  rw [position, start] at overwrites overwrites'
  rw [start] at spelled
  have full : ([128, 128, 128, 128] : Bytes).all Leb128.continues = true := by decide
  have five : taken = 5 := overwrites.full_iff.2 (List.all_eq_true.1 full)
  have one : taken' = 1 := by
    have count := Relocation.Encoding.size_of_decodeSized rfl (spelled (by decide))
    obtain ⟨more, rfl⟩ := Nat.exists_eq_add_one.2 overwrites'.positive
    -- The first of these bytes is zero, which does not continue.
    exact count
  rw [five] at overwrites
  rw [one] at overwrites'
  exact ⟨program, found, _, _, _, _, _, _, _, _, decided, done, overwrites, overwrites'⟩

/-- The link succeeds, although the second index takes one byte: the four bytes behind it are written
over, which are three instructions of the input. -/
theorem relocate_shortCall_short :
    ∃ output program module found relocation original result,
      link shortCall {} = .ok output ∧ ofInputs shortCall {} = .ok program ∧
      program.input 0 = .ok module ∧ module.sections[2]? = some found ∧
      relocation ∈ found.operands ⟨21, 36⟩ ∧ relocation.kind.encoding.isLeb128 = true ∧
      relocation.kind.encoding.width = 5 ∧ module.slice ⟨21, 36⟩ = .ok original ∧
      relocation.kind.encoding.decodeSized (original.window (found.start 21 relocation) 5) =
        .ok (0, 1) ∧
      program.relocate 0 found ⟨21, 36⟩ = .ok result ∧
      original.window (found.start 21 relocation + 1) 4 = [65, 7, 26, 1] ∧
      result.window (found.start 21 relocation + 1) 4 = [128, 128, 128, 0] := by
  have accepted : (link shortCall {}).isOk = true := by decide +kernel
  obtain ⟨output, linked⟩ := exists_of_isOk accepted
  obtain ⟨program, decided, copied⟩ := bind_eq_ok.1 relocatedRange_shortCall
  obtain ⟨module, found, input, here, origin, slice, done, operands⟩ :=
    exists_of_relocatedRange copied
  have start : found.start 21 ⟨.functionIndexLeb, 10, 0, 0⟩ = 9 := by
    rw [Section.start, Section.position, origin]
    rfl
  refine ⟨output, program, module, found, ⟨.functionIndexLeb, 10, 0, 0⟩, _, _, linked, decided,
    input, here, ?_, rfl, rfl, slice, ?_, done, ?_, ?_⟩
  · rw [operands]
    decide
  · rw [start]
    rfl
  · rw [start]
    rfl
  · rw [start]
    rfl

end Program

end StaticLink
