import StaticLink.Link
import StaticLink.Proofs.Leb128
import StaticLink.Proofs.Steps

/-!
# Reading what was written

A reader that is given the bytes that a value is written as takes just these bytes and gives the
value, whatever comes behind them.

* `Reader.Reads`: a reader takes some bytes and gives a value.
* `Reader.reads_varUInt32`, `Reader.reads_text` and the like: it holds of what is written.
* `items_unique`: what shows where it ends is found in a row of bytes in one way.
* `Reader.Takes`: whatever a reader takes, it takes again elsewhere.
-/

namespace StaticLink

namespace Text

theorem ofUtf8?_utf8 (text : String) : ofUtf8? (utf8 text) = some text := by
  have valid : text.toUTF8.IsValidUTF8 := text.isValidUTF8
  unfold ofUtf8? utf8
  rw [Array.toArray_toList]
  exact dif_pos valid

end Text

/-- Items that have bytes, and whose bytes show where they end, are found in a row of them in one
way. -/
theorem items_unique {α : Type} {bytes : α → Bytes} {Is : α → Prop}
    (some : ∀ item, Is item → 0 < (bytes item).length)
    (ends : ∀ item other rest rest', Is item → Is other →
      bytes item ++ rest = bytes other ++ rest' → item = other ∧ rest = rest')
    {items others : List α} (each : ∀ item ∈ items, Is item) (each' : ∀ item ∈ others, Is item)
    (same : items.flatMap bytes = others.flatMap bytes) : items = others := by
  have not_nil (item : α) (rest : Bytes) (is : Is item) : bytes item ++ rest ≠ [] := by
    intro none
    have size := some item is
    rw [(List.append_eq_nil_iff.1 none).1] at size
    exact Nat.lt_irrefl 0 size
  induction items generalizing others with
  | nil =>
    cases others with
    | nil => rfl
    | cons other others =>
      exact absurd same.symm (not_nil other _ (each' other List.mem_cons_self))
  | cons item items ih =>
    cases others with
    | nil => exact absurd same (not_nil item _ (each item List.mem_cons_self))
    | cons other others =>
      obtain ⟨one, later⟩ := List.forall_mem_cons.1 each
      obtain ⟨one', later'⟩ := List.forall_mem_cons.1 each'
      obtain ⟨rfl, rest⟩ := ends item other _ _ one one' same
      rw [ih later later' rest]

namespace Reader

open Leb128 (ofUInt32 paddedUInt32 ofInt32)
open Program (encodeNat constantExpression)

variable {α β : Type} {reader : Reader α} {next : α → Reader β} {taken one two : Bytes}
  {value : α} {result : β}

/-! ## Combining readers -/

/-- The reader takes these bytes, wherever they stand, and gives this value. -/
def Reads (reader : Reader α) (taken : Bytes) (value : α) : Prop :=
  ∀ position rest,
    reader ⟨position, taken ++ rest⟩ = .ok value ⟨position + taken.length, rest⟩

theorem Reads.bind (first : Reads reader one value) (second : Reads (next value) two result) :
    Reads (reader >>= next) (one ++ two) result := by
  intro position rest
  have here := first position (two ++ rest)
  have there := second (position + one.length) rest
  rw [List.append_assoc, List.length_append, ← Nat.add_assoc]
  exact state_bind_eq_ok.2 ⟨value, _, here, there⟩

theorem reads_pure (value : α) : Reads (pure value) [] value := fun _ _ => rfl

/-- What is left to do takes no bytes. -/
theorem Reads.last (first : Reads reader one value) (second : Reads (next value) [] result) :
    Reads (reader >>= next) one result := by
  rw [← List.append_nil one]
  exact first.bind second

/-- What a reader takes is told by the bytes ahead. -/
theorem Reads.unique {rest rest' : Bytes} {value' : α} (first : Reads reader one value)
    (second : Reads reader two value') (same : one ++ rest = two ++ rest') :
    value = value' ∧ one = two ∧ rest = rest' := by
  have here := first 0 rest
  rw [same, second 0 rest'] at here
  obtain ⟨values, cursors⟩ := EStateM.Result.ok.inj here
  obtain ⟨-, behind⟩ := Cursor.mk.inj cursors
  rw [behind, List.append_cancel_right_eq] at same
  exact ⟨values.symm, same, behind.symm⟩

theorem Reads.map (reads : Reads reader taken value) (change : α → β) :
    Reads (change <$> reader) taken (change value) := by
  rw [map_eq_pure_bind]
  exact reads.last (reads_pure _)

theorem Reads.discard (reads : Reads reader taken value) :
    Reads (discard reader) taken () :=
  fun position rest => discard_eq_ok.2 ⟨value, reads position rest⟩

/-- A reader may ask where it is, to report a fault. -/
theorem reads_position_bind {next : Nat → Reader β}
    (reads : ∀ start, Reads (next start) taken result) : Reads (position >>= next) taken result :=
  fun position rest => reads position position rest

/-! ## Single items -/

theorem reads_item {decode : Bytes → Except Defect (α × Nat)}
    (decoded : ∀ rest, decode (taken ++ rest) = .ok (value, taken.length)) :
    Reads (item decode) taken value := by
  intro position rest
  unfold item
  simp only [decoded rest, Cursor.advance, List.drop_left]

theorem reads_byte (b : UInt8) : Reads byte [b] b := reads_item fun _ => rfl

theorem reads_bytes (run : Bytes) : Reads (bytes run.length) run run := by
  refine reads_item fun rest => ?_
  rw [Bytes.splitExactly?_append]

theorem reads_varUInt32 (value : UInt32) : Reads varUInt32 (ofUInt32 value) value :=
  reads_item fun rest => Leb128.decodeUInt32_ofUInt32 value rest

theorem reads_paddedUInt32 (value : UInt32) : Reads varUInt32 (paddedUInt32 value) value := by
  refine reads_item fun rest => ?_
  rw [Leb128.length_paddedUInt32]
  exact Leb128.decodeUInt32_paddedUInt32 value rest

theorem reads_encodeNat (number : Nat) : Reads varUInt32 (encodeNat number) (.ofNat number) :=
  reads_varUInt32 _

theorem reads_varInt32 (value : Int32) : Reads varInt32 (ofInt32 value) value :=
  reads_item fun rest => Leb128.decodeInt32_ofInt32 value rest

theorem reads_code {ofByte : UInt8 → Except Defect α} {b : UInt8} (known : ofByte b = .ok value) :
    Reads (code ofByte) [b] value := by
  refine reads_position_bind fun start => ?_
  refine (reads_byte b).last ?_
  rw [known]
  exact reads_pure value

theorem spanAhead_append (start : Nat) (run rest : Bytes) :
    spanAhead run.length ⟨start, run ++ rest⟩ =
      .ok ⟨start, start + run.length⟩ ⟨start, run ++ rest⟩ := by
  have enough : Bytes.hasAtLeast (run ++ rest) run.length = true := by
    rw [Bytes.hasAtLeast_iff, List.length_append]
    omega
  refine state_bind_eq_ok.2 ⟨_, _, rfl, ?_⟩
  rw [if_pos enough]
  rfl

/-! ## Small structures -/

/-- A length that fits in a word is read as it is. -/
theorem toNat_ofNat_length {run : List α} (small : run.length < wordLimit) :
    (UInt32.ofNat run.length).toNat = run.length :=
  UInt32.toNat_ofNat_of_lt' small

theorem reads_text {string : String} (small : (Text.encode string).length < wordLimit) :
    Reads text (Text.encode string) string := by
  have short : (Text.utf8 string).length < wordLimit := by
    unfold Text.encode at small
    rw [List.length_append] at small
    omega
  refine (reads_varUInt32 _).bind (reads_position_bind fun start => ?_)
  rw [toNat_ofNat_length short]
  refine (reads_bytes _).last ?_
  rw [Text.ofUtf8?_utf8]
  exact reads_pure string

theorem reads_header : Reads header Header.encode () := by
  have four : Reads word (littleEndian 4 Header.version.toNat) Header.version :=
    (reads_bytes (littleEndian 4 Header.version.toNat)).last (reads_pure _)
  have version : Reads (do
      let start ← position
      let version ← word
      if version ≠ Header.version then failAt start (.unsupportedVersion version))
        (littleEndian 4 Header.version.toNat) () := by
    refine reads_position_bind fun _ => four.last ?_
    rw [if_neg (fun other => other rfl)]
    exact reads_pure ()
  refine reads_position_bind fun _ => (reads_bytes Header.magic).bind ?_
  dsimp only
  rw [if_neg (fun other => other rfl)]
  exact version

theorem reads_globalType (type : GlobalType) : Reads globalType type.encode type := by
  obtain ⟨content, mutable⟩ := type
  refine (reads_code (ValueType.ofByte_toByte content)).bind ?_
  cases mutable with
  | false => exact Reads.last (reads_code rfl) (reads_pure _)
  | true => exact Reads.last (reads_code rfl) (reads_pure _)

theorem reads_limits (size : Limits) : Reads limits size.encode size := by
  obtain ⟨initial, maximum, shared⟩ := size
  have flags : Reads limitsFlags [(⟨initial, maximum, shared⟩ : Limits).flags]
      (maximum.isSome, shared) := by
    have both : (1 ||| 2 : UInt8) = 3 := by decide
    refine reads_code ?_
    unfold Limits.flags
    cases maximum <;> cases shared <;> simp [both]
  refine flags.bind ((reads_varUInt32 initial).bind ?_)
  cases maximum with
  | none => exact Reads.last (reads_pure _) (reads_pure _)
  | some maximum => exact ((reads_varUInt32 maximum).map some).last (reads_pure _)

theorem reads_tableType (size : Limits) : Reads tableType size.encodeTable size := by
  have kind : Reads (code fun b =>
      if b = Limits.functionReference then .ok () else .error (.invalidElementType b))
        [Limits.functionReference] () := reads_code rfl
  exact kind.bind (reads_limits size)

theorem reads_endExpression : Reads endExpression [Opcode.endExpression] () := reads_code rfl

theorem reads_constantI32 (value : Int32) :
    Reads constantI32 (constantExpression value) value := by
  show Reads constantI32 ([Opcode.i32Const] ++ (ofInt32 value ++ [Opcode.endExpression])) value
  refine Reads.bind (reads_code rfl) ((reads_varInt32 value).bind ?_)
  exact reads_endExpression.last (reads_pure value)

/-- The initial value of a global of the linker. -/
theorem reads_skipConstant_of_constantExpression (value : Int32) :
    Reads skipConstant (constantExpression value) () := by
  refine reads_position_bind fun start => (reads_byte Opcode.i32Const).bind ?_
  exact (reads_varInt32 value).discard.bind reads_endExpression

theorem reads_segmentOwner : Reads Scanner.segmentOwner (encodeNat 0) (0, false) :=
  reads_position_bind fun _ => (reads_encodeNat 0).last (reads_pure _)

theorem reads_indicesOnto (numbers : List Nat) (before : List UInt32) :
    Reads (Scanner.indicesOnto numbers.length before) (numbers.flatMap encodeNat)
      (before.reverse ++ numbers.map .ofNat) := by
  induction numbers generalizing before with
  | nil =>
    rw [List.map_nil, List.append_nil]
    exact reads_pure _
  | cons number rest ih =>
    rw [List.flatMap_cons, List.map_cons, List.append_cons, ← List.reverse_cons]
    exact (reads_encodeNat number).bind (ih (UInt32.ofNat number :: before))

theorem reads_indices {numbers : List Nat} (small : numbers.length < wordLimit) :
    Reads Scanner.indices (encodeNat numbers.length ++ numbers.flatMap encodeNat)
      (numbers.map .ofNat) := by
  refine (reads_encodeNat _).bind ?_
  rw [toNat_ofNat_length small]
  exact reads_indicesOnto numbers []

/-! ## Reading again -/

/-- What the reader takes somewhere, it takes wherever it stands. -/
def Takes (reader : Reader α) : Prop :=
  ∀ cursor value next, reader cursor = .ok value next →
    ∃ taken, cursor.rest = taken ++ next.rest ∧ Reads reader taken value

theorem takes_pure (value : α) : Takes (pure value) := by
  rintro cursor _ _ ⟨⟩
  exact ⟨[], rfl, reads_pure value⟩

theorem Takes.bind (first : Takes reader) (second : ∀ value, Takes (next value)) :
    Takes (reader >>= next) := by
  intro cursor result last h
  obtain ⟨value, middle, here, there⟩ := state_bind_eq_ok.1 h
  obtain ⟨one, before, reads⟩ := first cursor value middle here
  obtain ⟨two, after, reads'⟩ := second value middle result last there
  refine ⟨one ++ two, ?_, reads.bind reads'⟩
  rw [before, after, List.append_assoc]

theorem Takes.discard (takes : Takes reader) : Takes (discard reader) := by
  intro cursor _ next h
  obtain ⟨value, h⟩ := discard_eq_ok.1 h
  obtain ⟨taken, before, reads⟩ := takes cursor value next h
  exact ⟨taken, before, reads.discard⟩

theorem takes_item {decode : Bytes → Except Defect (α × Nat)}
    (again : ∀ bytes value size, decode bytes = .ok (value, size) →
      ∃ first rest, bytes = first ++ rest ∧ first.length = size ∧
        ∀ other, decode (first ++ other) = .ok (value, size)) : Takes (item decode) := by
  intro cursor value next h
  unfold item at h
  split at h
  · next found size decoded =>
    cases h
    obtain ⟨first, rest, whole, length, decoded⟩ := again _ _ _ decoded
    refine ⟨first, ?_, reads_item fun other => ?_⟩
    · show cursor.rest = first ++ cursor.rest.drop size
      rw [whole, List.drop_left' length]
    · rw [decoded other, length]
  · cases h

theorem takes_of_prefixed {decode : Bytes → Except Defect (α × Nat)}
    (prefixed : Leb128.Prefixed decode) : Takes (item decode) :=
  takes_item fun bytes value size decoded => (prefixed bytes value size decoded).2

theorem takes_byte : Takes byte := by
  refine takes_item fun run value size decoded => ?_
  split at decoded
  · next b rest =>
    cases decoded
    exact ⟨[value], rest, rfl, rfl, fun _ => rfl⟩
  · cases decoded

theorem takes_bytes (count : Nat) : Takes (bytes count) := by
  refine takes_item fun run value size decoded => ?_
  split at decoded
  · next first rest split =>
    cases decoded
    obtain ⟨whole, length⟩ := Bytes.append_of_splitExactly? split
    refine ⟨value, rest, whole, length, fun other => ?_⟩
    rw [← length, Bytes.splitExactly?_append]
  · cases decoded

theorem takes_code (ofByte : UInt8 → Except Defect α) : Takes (code ofByte) := by
  intro cursor value next h
  obtain ⟨start, _, looked, h⟩ := state_bind_eq_ok.1 h
  cases looked
  obtain ⟨b, middle, one, h⟩ := state_bind_eq_ok.1 h
  obtain ⟨taken, before, reads⟩ := takes_byte _ _ _ one
  rcases known : ofByte b with defect | found
  · rw [known] at h
    cases h
  · rw [known] at h
    cases h
    refine ⟨taken, before, reads_position_bind fun _ => reads.last ?_⟩
    rw [known]
    exact reads_pure value

theorem takes_globalType : Takes globalType :=
  (takes_code _).bind fun _ => (takes_code _).bind fun _ => takes_pure _

/-- The operand of a constant, by its opcode. -/
def operand? : UInt8 → Option (Reader Unit)
  | Opcode.i32Const => some (discard varInt32)
  | Opcode.i64Const => some (discard varInt64)
  | Opcode.f32Const => some (discard (bytes 4))
  | Opcode.f64Const => some (discard (bytes 8))
  | Opcode.globalGet | Opcode.refFunc => some (discard varUInt32)
  | Opcode.refNull => some (discard byte)
  | _ => none

theorem takes_of_operand? {opcode : UInt8} {operand : Reader Unit}
    (known : operand? opcode = some operand) : Takes operand := by
  unfold operand? at known
  split at known <;> cases known
  · exact (takes_of_prefixed Leb128.prefixed_decodeInt32).discard
  · exact (takes_of_prefixed Leb128.prefixed_decodeInt64).discard
  · exact (takes_bytes 4).discard
  · exact (takes_bytes 8).discard
  · exact (takes_of_prefixed Leb128.prefixed_decodeUInt32).discard
  · exact (takes_of_prefixed Leb128.prefixed_decodeUInt32).discard
  · exact takes_byte.discard

theorem skipConstant_eq :
    skipConstant = (do
      let start ← position
      let opcode ← byte
      (operand? opcode).getD (failAt start (.expectedConstant opcode))
      endExpression) := by
  unfold skipConstant operand?
  refine congrArg _ (funext fun start => congrArg _ (funext fun opcode => ?_))
  dsimp only
  split
  case h_8 => simp [*]
  all_goals rfl

/-- The initial value of a global is read the same wherever it stands. -/
theorem takes_skipConstant : Takes skipConstant := by
  rw [skipConstant_eq]
  intro cursor value next h
  obtain ⟨start, _, looked, h⟩ := state_bind_eq_ok.1 h
  cases looked
  obtain ⟨opcode, middle, one, h⟩ := state_bind_eq_ok.1 h
  obtain ⟨taken, before, reads⟩ := takes_byte _ _ _ one
  rcases known : operand? opcode with _ | operand
  · rw [known] at h
    obtain ⟨_, _, failed, _⟩ := state_bind_eq_ok.1 h
    cases failed
  · rw [known] at h
    have ends : Takes (operand >>= fun _ => endExpression) :=
      (takes_of_operand? known).bind fun _ => takes_code _
    obtain ⟨more, after, reads'⟩ := ends _ _ _ h
    refine ⟨taken ++ more, ?_, reads_position_bind fun _ => reads.bind ?_⟩
    · rw [before, after, List.append_assoc]
    · rw [known]
      exact reads'

end Reader

end StaticLink
