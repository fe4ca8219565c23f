import StaticLink.Proofs.Grammar.Syntax
import StaticLink.Proofs.Scan.Reading

/-!
# Readers and the syntax that they accept

A reader of a node takes the bytes of every such node, and where it succeeds it has found one.

* `Reader.Accepts`: the reader of a kind of node.
* `Reader.Accepts.of_bind`: what a sequence of readers has found, node by node.
* `Reader.accepts_text`, `Reader.accepts_limits` and the like: the readers of single structures.
-/

namespace StaticLink

/-- Bytes are those of the number that they stand for. -/
theorem littleEndian_ofLittleEndian (run : Bytes) :
    littleEndian run.length (ofLittleEndian run) = run := by
  induction run with
  | nil => rfl
  | cons b rest ih =>
    have small := b.toNat_lt
    have high : (b.toNat + 256 * ofLittleEndian rest) / 256 = ofLittleEndian rest := by omega
    have low : UInt8.ofNat (b.toNat + 256 * ofLittleEndian rest) = b := by
      rw [UInt8.ofNat_add, UInt8.ofNat_mul, UInt8.ofNat_toNat]
      show b + 0 * _ = b
      rw [UInt8.zero_mul, UInt8.add_zero]
    rw [List.length_cons, ofLittleEndian, littleEndian, high, ih, low]

namespace Text

/-- Only the bytes of a text are read as this text. -/
theorem eq_utf8_of_ofUtf8? {run : Bytes} {text : String} (h : ofUtf8? run = some text) :
    run = utf8 text := by
  unfold ofUtf8? String.fromUTF8? at h
  split at h
  · cases h
    rfl
  · cases h

end Text

/-! ## Bytes that stand for something -/

theorem ExternalKind.eq_toByte {b : UInt8} {kind : ExternalKind} (h : ofByte b = .ok kind) :
    b = kind.toByte := by
  unfold ofByte at h
  split at h <;> cases h <;> rfl

theorem ValueType.eq_toByte {b : UInt8} {type : ValueType} (h : ofByte b = .ok type) :
    b = type.toByte := by
  unfold ofByte at h
  split at h <;> cases h <;> rfl

theorem SectionId.eq_toByte {b : UInt8} {id : SectionId} (h : ofByte b = .ok id) :
    b = id.toByte := by
  unfold ofByte at h
  split at h <;> cases h <;> rfl

theorem SymbolEntry.Kind.eq_toByte {b : UInt8} {kind : SymbolEntry.Kind} (h : ofByte b = .ok kind) :
    b = kind.toByte := by
  unfold ofByte at h
  split at h <;> cases h <;> rfl

theorem Relocation.Kind.eq_toByte {b : UInt8} {kind : Relocation.Kind} (h : ofByte b = .ok kind) :
    b = kind.toByte := by
  unfold ofByte at h
  split at h <;> cases h <;> rfl

namespace Reader

open Grammar (Decodes)

variable {α β ν : Type} {reader : Reader α} {next : α → Reader β} {bytes : ν → Bytes}
  {value : ν → α} {position : Nat} {ahead : Bytes} {last : Cursor}

/-! ## Accepting a kind of node -/

/-- The reader takes the bytes of each node, gives its value, and succeeds nowhere else. -/
structure Accepts (reader : Reader α) (bytes : ν → Bytes) (value : ν → α) : Prop where
  complete : ∀ node, Reads reader (bytes node) (value node)
  sound : ∀ {position ahead result last}, reader ⟨position, ahead⟩ = .ok result last →
    ∃ node rest, ahead = bytes node ++ rest

/-- Where the reader succeeds, it has passed a node and gives its value. -/
theorem Accepts.eq_ok (accepts : Accepts reader bytes value) {result : α}
    (h : reader ⟨position, ahead⟩ = .ok result last) :
    ∃ node rest, ahead = bytes node ++ rest ∧ result = value node ∧
      last = ⟨position + (bytes node).length, rest⟩ := by
  obtain ⟨node, rest, rfl⟩ := accepts.sound h
  obtain ⟨rfl, rfl⟩ := EStateM.Result.ok.inj (h.symm.trans (accepts.complete node position rest))
  exact ⟨node, rest, rfl, rfl, rfl⟩

/-- What is left to do after a reader has succeeded. -/
theorem Accepts.of_bind (accepts : Accepts reader bytes value) {result : β}
    (h : (reader >>= next) ⟨position, ahead⟩ = .ok result last) :
    ∃ node rest, ahead = bytes node ++ rest ∧
      next (value node) ⟨position + (bytes node).length, rest⟩ = .ok result last := by
  obtain ⟨found, middle, here, there⟩ := state_bind_eq_ok.1 h
  obtain ⟨node, rest, whole, rfl, rfl⟩ := accepts.eq_ok here
  exact ⟨node, rest, whole, there⟩

/-- A reader knows where it stands. -/
theorem of_position_bind {next : Nat → Reader β} {result : β} {cursor : Cursor}
    (h : (Reader.position >>= next) cursor = .ok result last) :
    next cursor.position cursor = .ok result last := h

theorem Accepts.discard (accepts : Accepts reader bytes value) :
    Accepts (discard reader) bytes fun _ => () where
  complete node := (accepts.complete node).discard
  sound h := by
    obtain ⟨_, h⟩ := discard_eq_ok.1 h
    exact accepts.sound h

theorem Accepts.map (accepts : Accepts reader bytes value) (change : α → β) :
    Accepts (change <$> reader) bytes fun node => change (value node) where
  complete node := (accepts.complete node).map change
  sound h := by
    rw [map_eq_pure_bind] at h
    obtain ⟨node, rest, whole, -⟩ := accepts.of_bind h
    exact ⟨node, rest, whole⟩

/-- What is left to do after either of two readers. -/
theorem if_bind (condition : Bool) (one two : Reader α) (next : α → Reader β) :
    (if condition then one >>= next else two >>= next) =
      (if condition then one else two) >>= next := by
  cases condition <;> rfl

/-- A condition says whether there is something to read, and `other` is taken else. -/
theorem Accepts.either (accepts : Accepts reader bytes value) (condition : Bool) (other : α) :
    Accepts (if condition then reader else pure other) (@Grammar.Optional.bytes ν condition bytes)
      fun optional => optional.node.elim other value where
  complete := by
    rintro ⟨node, rfl⟩
    cases node with
    | none => exact reads_pure other
    | some node => exact accepts.complete node
  sound := by
    intro position ahead result last h
    cases condition with
    | false => exact ⟨⟨none, rfl⟩, ahead, rfl⟩
    | true =>
      obtain ⟨node, rest, whole⟩ := accepts.sound h
      exact ⟨⟨some node, rfl⟩, rest, whole⟩

theorem Accepts.optional (accepts : Accepts reader bytes value) (condition : Bool) :
    Accepts (if condition then some <$> reader else pure none)
      (@Grammar.Optional.bytes ν condition bytes) fun optional => optional.node.map value := by
  have same (node : Option ν) :
      node.elim none (fun node => some (value node)) = node.map value := by
    cases node <;> rfl
  have either := (accepts.map some).either condition none
  simp only [same] at either
  exact either

/-! ## Single items -/

theorem accepts_item {decode : Bytes → Except Defect (α × Nat)}
    (decodes : Decodes decode bytes value) : Accepts (item decode) bytes value where
  complete node := reads_item fun rest => (decodes _ _ _).2 ⟨node, rest, rfl, rfl, rfl⟩
  sound := by
    intro position ahead result last h
    unfold item at h
    split at h
    · next found size decoded =>
      obtain ⟨node, rest, whole, -⟩ := (decodes _ _ _).1 decoded
      exact ⟨node, rest, whole⟩
    · cases h

theorem accepts_word : Accepts varUInt32 Grammar.Unsigned.bytes Grammar.Unsigned.value :=
  accepts_item Grammar.decodes_word

theorem accepts_signedWord : Accepts varInt32 Grammar.Signed.bytes Grammar.SignedWord.value :=
  accepts_item Grammar.decodes_signedWord

theorem accepts_signedLong : Accepts varInt64 Grammar.Signed.bytes Grammar.SignedLong.value :=
  accepts_item Grammar.decodes_signedLong

theorem accepts_byte : Accepts byte (fun b => [b]) id := by
  refine accepts_item fun run found size => ?_
  cases run with
  | nil => simp
  | cons first rest =>
    constructor
    · intro decoded
      cases decoded
      exact ⟨found, rest, rfl, rfl, rfl⟩
    · rintro ⟨_, _, ⟨⟩, rfl, rfl⟩
      rfl

theorem accepts_bytes (count : Nat) :
    Accepts (Reader.bytes count) (fun run : { run : Bytes // run.length = count } => run.1)
      Subtype.val := by
  refine accepts_item fun run found size => ?_
  constructor
  · intro h
    split at h
    · next first rest split =>
      cases h
      obtain ⟨whole, counted⟩ := Bytes.append_of_splitExactly? split
      exact ⟨⟨found, counted⟩, rest, whole, rfl, counted.symm⟩
    · cases h
  · rintro ⟨⟨run, rfl⟩, rest, rfl, rfl, rfl⟩
    rw [Bytes.splitExactly?_append]

/-- A byte that is the code of something. -/
theorem accepts_code {ofByte : UInt8 → Except Defect α} {toByte : α → UInt8}
    (known : ∀ found, ofByte (toByte found) = .ok found)
    (unknown : ∀ {b found}, ofByte b = .ok found → b = toByte found) :
    Accepts (code ofByte) (fun found => [toByte found]) id where
  complete found := reads_code (known found)
  sound := by
    intro position ahead result last h
    obtain ⟨b, rest, whole, h⟩ := accepts_byte.of_bind (of_position_bind h)
    rcases decoded : ofByte b with defect | found
    · rw [id, decoded] at h
      cases h
    · exact ⟨found, rest, by rw [whole, unknown decoded]⟩

theorem accepts_externalKind :
    Accepts (code ExternalKind.ofByte) (fun kind => [ExternalKind.toByte kind]) id :=
  accepts_code ExternalKind.ofByte_toByte ExternalKind.eq_toByte

theorem accepts_valueType : Accepts valueType (fun type => [ValueType.toByte type]) id :=
  accepts_code ValueType.ofByte_toByte ValueType.eq_toByte

theorem accepts_sectionId :
    Accepts (code SectionId.ofByte) (fun id => [SectionId.toByte id]) id :=
  accepts_code SectionId.ofByte_toByte SectionId.eq_toByte

theorem accepts_symbolKind :
    Accepts (code SymbolEntry.Kind.ofByte) (fun kind => [SymbolEntry.Kind.toByte kind]) id :=
  accepts_code SymbolEntry.Kind.ofByte_toByte SymbolEntry.Kind.eq_toByte

theorem accepts_relocationKind :
    Accepts (code Relocation.Kind.ofByte) (fun kind => [Relocation.Kind.toByte kind]) id :=
  accepts_code Relocation.Kind.ofByte_toByte Relocation.Kind.eq_toByte

/-- The end of a constant expression, which says nothing. -/
theorem accepts_endExpression :
    Accepts endExpression (fun _ : Unit => [Opcode.endExpression]) id := by
  refine accepts_code (fun _ => rfl) fun decoded => ?_
  split at decoded
  · rfl
  · cases decoded

/-- The byte of a global that says whether it can be changed. -/
theorem accepts_mutability :
    Accepts (code fun
      | 0 => .ok false
      | 1 => .ok true
      | b => .error (.invalidMutability b)) (fun mutable => [if mutable then 1 else 0]) id := by
  refine accepts_code (fun mutable => ?_) fun decoded => ?_
  · cases mutable <;> rfl
  · split at decoded <;> cases decoded <;> rfl

/-- The byte of the flags that open limits. -/
def limitsByte (flags : Bool × Bool) : UInt8 :=
  (if flags.1 then 1 else 0) ||| (if flags.2 then 2 else 0)

theorem accepts_limitsFlags : Accepts limitsFlags (fun flags => [limitsByte flags]) id := by
  have both : (1 ||| 2 : UInt8) = 3 := by decide
  refine accepts_code (fun flags => ?_) fun decoded => ?_
  · obtain ⟨bounded, shared⟩ := flags
    cases bounded <;> cases shared <;> simp [limitsByte, both]
  · split at decoded <;> cases decoded <;> simp [limitsByte, both]

/-- The kind of elements of a table. -/
theorem accepts_functionReference :
    Accepts (code fun b =>
      if b = Limits.functionReference then .ok () else .error (.invalidElementType b))
        (fun _ : Unit => [Limits.functionReference]) id := by
  refine accepts_code (fun _ => rfl) fun decoded => ?_
  split at decoded
  · next same => exact same
  · cases decoded

/-- The opcode of the offset of a segment. -/
theorem accepts_i32Const :
    Accepts (code fun
      | Opcode.i32Const => .ok ()
      | b@Opcode.i64Const | b@Opcode.f32Const | b@Opcode.f64Const | b@Opcode.globalGet =>
        .error (.expectedI32Constant b)
      | b => .error (.expectedConstant b)) (fun _ : Unit => [Opcode.i32Const]) id := by
  refine accepts_code (fun _ => rfl) fun decoded => ?_
  split at decoded <;> cases decoded
  rfl

/-- A word of four bytes. -/
theorem accepts_fixedWord : Accepts word (fun value => littleEndian 4 value.toNat) id where
  complete value := by
    have size := length_littleEndian 4 value.toNat
    have small : value.toNat < powerOfTwo (8 * 4) := value.toNat_lt
    have reads := reads_bytes (littleEndian 4 value.toNat)
    rw [size] at reads
    refine reads.last ?_
    rw [ofLittleEndian_littleEndian, Nat.mod_eq_of_lt small, UInt32.ofNat_toNat]
    exact reads_pure value
  sound := by
    intro position ahead result last h
    obtain ⟨⟨run, size⟩, rest, whole, -⟩ := (accepts_bytes 4).of_bind h
    have small := ofLittleEndian_lt run
    have same := littleEndian_ofLittleEndian run
    rw [size] at small same
    refine ⟨.ofNat (ofLittleEndian run), rest, ?_⟩
    rw [UInt32.toNat_ofNat_of_lt' small, same, whole]

/-! ## Small structures -/

theorem accepts_text : Accepts text Grammar.Name.bytes Grammar.Name.text where
  complete := by
    rintro ⟨size, text, counted⟩
    refine (accepts_word.complete size).bind (reads_position_bind fun start => ?_)
    rw [counted]
    refine (reads_bytes _).last ?_
    rw [Text.ofUtf8?_utf8]
    exact reads_pure text
  sound := by
    intro position ahead result last h
    obtain ⟨size, rest, one, h⟩ := accepts_word.of_bind h
    replace h := of_position_bind h
    obtain ⟨⟨run, counted⟩, rest, two, h⟩ := (accepts_bytes _).of_bind h
    rcases decoded : Text.ofUtf8? run with _ | text
    · simp only [decoded] at h
      cases h
    · obtain rfl := Text.eq_utf8_of_ofUtf8? decoded
      exact ⟨⟨size, text, counted.symm⟩, rest,
        by rw [one, two, Grammar.Name.bytes, List.append_assoc]⟩

theorem accepts_header : Accepts header (fun _ : Unit => Header.encode) id where
  complete _ := reads_header
  sound := by
    intro position ahead result last h
    replace h := of_position_bind h
    obtain ⟨⟨magic, size⟩, rest, one, h⟩ := (accepts_bytes _).of_bind h
    dsimp only at one h
    split at h
    · cases h
    · next same =>
      replace h := of_position_bind h
      obtain ⟨version, rest, two, h⟩ := accepts_fixedWord.of_bind h
      dsimp only [id] at h
      split at h
      · cases h
      · next known =>
        rw [Decidable.not_not.1 same] at one
        rw [Decidable.not_not.1 known] at two
        exact ⟨(), rest, by rw [one, two, Header.encode, List.append_assoc]⟩

theorem accepts_globalType : Accepts globalType GlobalType.encode id where
  complete := reads_globalType
  sound := by
    intro position ahead result last h
    obtain ⟨content, rest, one, h⟩ := accepts_valueType.of_bind h
    obtain ⟨mutable, rest, two, -⟩ := accepts_mutability.of_bind h
    exact ⟨⟨content, mutable⟩, rest, by rw [one, two]; rfl⟩

/-- The flags of limits say what else there is. -/
theorem flags_value (limits : Grammar.Limits) :
    limits.value.flags = limitsByte (limits.maximum.isSome, limits.shared) := by
  obtain ⟨initial, maximum, shared⟩ := limits
  cases maximum <;> rfl

theorem accepts_limits : Accepts limits Grammar.Limits.bytes Grammar.Limits.value where
  complete node := by
    have most := (accepts_word.optional node.maximum.isSome).complete ⟨node.maximum, rfl⟩
    unfold Grammar.Limits.bytes
    rw [flags_value]
    refine (accepts_limitsFlags.complete (node.maximum.isSome, node.shared)).bind ?_
    refine (accepts_word.complete node.initial).bind ?_
    dsimp only [id]
    rw [if_bind]
    exact most.last (reads_pure _)
  sound := by
    intro position ahead result last h
    obtain ⟨⟨bounded, shared⟩, rest, one, h⟩ := accepts_limitsFlags.of_bind h
    obtain ⟨initial, rest, two, h⟩ := accepts_word.of_bind h
    dsimp only [id] at h
    rw [if_bind] at h
    obtain ⟨⟨maximum, rfl⟩, rest, three, -⟩ := (accepts_word.optional bounded).of_bind h
    refine ⟨⟨initial, maximum, shared⟩, rest, ?_⟩
    rw [one, two, three, Grammar.Limits.bytes, flags_value, List.cons_append, List.append_assoc]
    rfl

theorem accepts_tableType : Accepts tableType Grammar.Limits.tableBytes Grammar.Limits.value where
  complete limits := (accepts_functionReference.complete ()).bind (accepts_limits.complete limits)
  sound := by
    intro position ahead result last h
    obtain ⟨_, rest, one, h⟩ := accepts_functionReference.of_bind h
    obtain ⟨limits, rest, two⟩ := accepts_limits.sound h
    exact ⟨limits, rest, by rw [one, two]; rfl⟩

theorem accepts_constantI32 :
    Accepts constantI32 Grammar.Offset.bytes fun offset => offset.value.value where
  complete offset := by
    refine (accepts_i32Const.complete ()).bind ((accepts_signedWord.complete offset.value).bind ?_)
    exact reads_endExpression.last (reads_pure _)
  sound := by
    intro position ahead result last h
    obtain ⟨_, rest, one, h⟩ := accepts_i32Const.of_bind h
    obtain ⟨value, rest, two, h⟩ := accepts_signedWord.of_bind h
    obtain ⟨_, rest, three, -⟩ := accepts_endExpression.of_bind h
    exact ⟨⟨value⟩, rest, by rw [one, two, three, Grammar.Offset.bytes]; simp⟩

theorem operand?_opcode (constant : Grammar.Constant) :
    ∃ operand, operand? constant.opcode = some operand := by
  cases constant <;> exact ⟨_, rfl⟩

/-- The operand that belongs to an opcode is read, and nothing else is. -/
theorem accepts_operand {b : UInt8} {operand : Reader Unit} (known : operand? b = some operand) :
    Accepts operand
      (fun constant : { constant : Grammar.Constant // constant.opcode = b } =>
        constant.1.operandBytes) fun _ => () where
  complete := by
    rintro ⟨constant, rfl⟩
    cases constant with
    | i32 value => cases known; exact (accepts_signedWord.complete value).discard
    | i64 value => cases known; exact (accepts_signedLong.complete value).discard
    | f32 value size => cases known; exact ((accepts_bytes 4).complete ⟨value, size⟩).discard
    | f64 value size => cases known; exact ((accepts_bytes 8).complete ⟨value, size⟩).discard
    | global index => cases known; exact (accepts_word.complete index).discard
    | function index => cases known; exact (accepts_word.complete index).discard
    | null type => cases known; exact (reads_byte type).discard
  sound := by
    intro position ahead result last h
    unfold operand? at known
    split at known <;> cases known
    · obtain ⟨value, rest, whole⟩ := accepts_signedWord.discard.sound h
      exact ⟨⟨.i32 value, rfl⟩, rest, whole⟩
    · obtain ⟨value, rest, whole⟩ := accepts_signedLong.discard.sound h
      exact ⟨⟨.i64 value, rfl⟩, rest, whole⟩
    · obtain ⟨⟨value, size⟩, rest, whole⟩ := (accepts_bytes 4).discard.sound h
      exact ⟨⟨.f32 value size, rfl⟩, rest, whole⟩
    · obtain ⟨⟨value, size⟩, rest, whole⟩ := (accepts_bytes 8).discard.sound h
      exact ⟨⟨.f64 value size, rfl⟩, rest, whole⟩
    · obtain ⟨index, rest, whole⟩ := accepts_word.discard.sound h
      exact ⟨⟨.global index, rfl⟩, rest, whole⟩
    · obtain ⟨index, rest, whole⟩ := accepts_word.discard.sound h
      exact ⟨⟨.function index, rfl⟩, rest, whole⟩
    · obtain ⟨type, rest, whole⟩ := accepts_byte.discard.sound h
      exact ⟨⟨.null type, rfl⟩, rest, whole⟩

theorem accepts_skipConstant : Accepts skipConstant Grammar.Constant.bytes fun _ => () where
  complete constant := by
    obtain ⟨operand, known⟩ := operand?_opcode constant
    rw [skipConstant_eq]
    refine reads_position_bind fun start => (reads_byte constant.opcode).bind ?_
    rw [known]
    exact ((accepts_operand known).complete ⟨constant, rfl⟩).bind reads_endExpression
  sound := by
    intro position ahead result last h
    rw [skipConstant_eq] at h
    replace h := of_position_bind h
    obtain ⟨b, rest, one, h⟩ := accepts_byte.of_bind h
    rcases known : operand? b with _ | operand
    · simp only [id, known] at h
      cases h
    · simp only [id, known] at h
      obtain ⟨⟨constant, rfl⟩, rest, two, h⟩ := (accepts_operand known).of_bind h
      obtain ⟨_, rest, three⟩ := accepts_endExpression.sound h
      exact ⟨constant, rest, by rw [one, two, three, Grammar.Constant.bytes]; simp⟩

/-! ## Entries -/

theorem accepts_segmentOwner :
    Accepts Scanner.segmentOwner Grammar.SegmentOwner.bytes
      fun owner => (owner.index, owner.isExplicit) where
  complete owner := by
    cases owner with
    | first flags zero =>
      refine reads_position_bind fun start => (accepts_word.complete flags).last ?_
      rw [zero]
      exact reads_pure _
    | explicit flags two index =>
      refine reads_position_bind fun start => (accepts_word.complete flags).bind ?_
      rw [two]
      exact (accepts_word.complete index).last (reads_pure _)
  sound := by
    intro position ahead result last h
    replace h := of_position_bind h
    obtain ⟨flags, rest, one, h⟩ := accepts_word.of_bind h
    generalize same : flags.value = bits at h
    split at h
    · exact ⟨.first flags same, rest, one⟩
    · obtain ⟨index, rest, two, -⟩ := accepts_word.of_bind h
      refine ⟨.explicit flags same index, rest, ?_⟩
      rw [one, two, Grammar.SegmentOwner.bytes, List.append_assoc]
    · cases h

theorem accepts_indicesOnto (count : Nat) (later : List UInt32) :
    Accepts (Scanner.indicesOnto count later)
      (fun items : { items : List Grammar.Word // count = items.length } =>
        items.1.flatMap Grammar.Unsigned.bytes)
      fun items => later.reverse ++ items.1.map Grammar.Unsigned.value where
  complete := by
    rintro ⟨items, rfl⟩
    induction items generalizing later with
    | nil =>
      rw [List.map_nil, List.append_nil]
      exact reads_pure _
    | cons item items ih =>
      rw [List.flatMap_cons, List.map_cons, List.append_cons, ← List.reverse_cons]
      exact (accepts_word.complete item).bind (ih (item.value :: later))
  sound := by
    intro position ahead result last h
    induction count generalizing later position ahead with
    | zero => exact ⟨⟨[], rfl⟩, ahead, rfl⟩
    | succ count ih =>
      obtain ⟨item, rest, one, h⟩ := accepts_word.of_bind h
      obtain ⟨⟨items, rfl⟩, rest, others⟩ := ih _ h
      refine ⟨⟨item :: items, rfl⟩, rest, ?_⟩
      rw [one, others, List.flatMap_cons, List.append_assoc]

theorem accepts_indices :
    Accepts Scanner.indices (Grammar.Counted.bytes Grammar.Unsigned.bytes)
      fun list => list.items.map Grammar.Unsigned.value where
  complete := by
    rintro ⟨count, items, counted⟩
    exact (accepts_word.complete count).bind ((accepts_indicesOnto _ []).complete ⟨items, counted⟩)
  sound := by
    intro position ahead result last h
    obtain ⟨count, rest, one, h⟩ := accepts_word.of_bind h
    obtain ⟨⟨items, counted⟩, rest, two⟩ := (accepts_indicesOnto _ []).sound h
    exact ⟨⟨count, items, counted⟩, rest,
      by rw [one, two, Grammar.Counted.bytes, List.append_assoc]⟩

theorem accepts_relocationEntry :
    Accepts Scanner.relocationEntry Grammar.Relocation.bytes Grammar.Relocation.value where
  complete := by
    rintro ⟨kind, offset, index, addend⟩
    refine (accepts_relocationKind.complete kind).bind ((accepts_word.complete offset).bind ?_)
    refine (accepts_word.complete index).bind ?_
    dsimp only [id]
    rw [if_bind]
    exact ((accepts_signedLong.either kind.hasAddend 0).complete addend).last (reads_pure _)
  sound := by
    intro position ahead result last h
    obtain ⟨kind, rest, one, h⟩ := accepts_relocationKind.of_bind h
    obtain ⟨offset, rest, two, h⟩ := accepts_word.of_bind h
    obtain ⟨index, rest, three, h⟩ := accepts_word.of_bind h
    dsimp only [id] at h
    rw [if_bind] at h
    obtain ⟨addend, rest, four, -⟩ := (accepts_signedLong.either kind.hasAddend 0).of_bind h
    refine ⟨⟨kind, offset, index, addend⟩, rest, ?_⟩
    rw [one, two, three, four, Grammar.Relocation.bytes]
    simp

/-- The index of a symbol that stands for an entity, and its name if it has one of its own. -/
theorem accepts_reference (flags : Grammar.Word) :
    Accepts (do
      let index ← varUInt32
      let name ← if Grammar.isNamed flags then some <$> text else pure none
      return (index, name)) (@Grammar.Reference.bytes flags)
      fun reference => (reference.index.value, reference.name?) where
  complete := by
    rintro ⟨index, name⟩
    refine (accepts_word.complete index).bind ?_
    dsimp only
    rw [if_bind]
    exact ((accepts_text.optional _).complete name).last (reads_pure _)
  sound := by
    intro position ahead result last h
    obtain ⟨index, rest, one, h⟩ := accepts_word.of_bind h
    dsimp only at h
    rw [if_bind] at h
    obtain ⟨name, rest, two, -⟩ := (accepts_text.optional _).of_bind h
    exact ⟨⟨index, name⟩, rest, by rw [one, two, Grammar.Reference.bytes, List.append_assoc]⟩

/-- The name of a data symbol, and where it lies if it is defined. -/
theorem accepts_dataSymbol (flags : Grammar.Word) :
    Accepts (do
      let name ← text
      if Grammar.isDefined flags then
        let segment ← varUInt32
        let offset ← varUInt32
        let size ← varUInt32
        return SymbolEntry.data ⟨flags.value⟩ name (some { segment, offset, size })
      else
        return .data ⟨flags.value⟩ name none)
      (fun symbol : Grammar.Name × Grammar.Optional _ (Grammar.isDefined flags) =>
        (Grammar.Meaning.data symbol.1 symbol.2).bytes)
      fun symbol => (Grammar.Meaning.data symbol.1 symbol.2).value where
  complete := by
    rintro ⟨name, definition, present⟩
    refine (accepts_text.complete name).bind ?_
    cases definition with
    | none =>
      have undefined : ¬ Grammar.isDefined flags = true := by
        rw [← present]
        exact Bool.false_ne_true
      rw [if_neg undefined]
      exact reads_pure _
    | some definition =>
      have defined : Grammar.isDefined flags = true := present.symm
      rw [if_pos defined]
      refine (accepts_word.complete definition.segment).bind ?_
      refine (accepts_word.complete definition.offset).bind ?_
      exact (accepts_word.complete definition.size).last (reads_pure _)
  sound := by
    intro position ahead result last h
    obtain ⟨name, rest, one, h⟩ := accepts_text.of_bind h
    by_cases defined : Grammar.isDefined flags = true
    · rw [if_pos defined] at h
      obtain ⟨segment, rest, two, h⟩ := accepts_word.of_bind h
      obtain ⟨offset, rest, three, h⟩ := accepts_word.of_bind h
      obtain ⟨size, rest, four, -⟩ := accepts_word.of_bind h
      refine ⟨⟨name, some ⟨segment, offset, size⟩, defined.symm⟩, rest, ?_⟩
      rw [one, two, three, four]
      simp [Grammar.Meaning.bytes, Grammar.Optional.bytes, Grammar.DataDefinition.bytes]
    · refine ⟨⟨name, none, (eq_false_of_ne_true defined).symm⟩, rest, ?_⟩
      rw [one]
      simp [Grammar.Meaning.bytes, Grammar.Optional.bytes]

theorem accepts_symbolEntry :
    Accepts Scanner.symbolEntry Grammar.Symbol.bytes fun entry => entry.meaning.value where
  complete := by
    rintro ⟨flags, meaning⟩
    refine (accepts_symbolKind.complete meaning.kind).bind ((accepts_word.complete flags).bind ?_)
    cases meaning with
    | function reference => exact ((accepts_reference flags).complete reference).last (reads_pure _)
    | global reference => exact ((accepts_reference flags).complete reference).last (reads_pure _)
    | event reference => exact ((accepts_reference flags).complete reference).last (reads_pure _)
    | table reference => exact ((accepts_reference flags).complete reference).last (reads_pure _)
    | wholeSection place => exact (accepts_word.complete place).last (reads_pure _)
    | data name definition => exact (accepts_dataSymbol flags).complete (name, definition)
  sound := by
    intro position ahead result last h
    obtain ⟨kind, rest, one, h⟩ := accepts_symbolKind.of_bind h
    obtain ⟨flags, rest', two, h⟩ := accepts_word.of_bind h
    -- What the symbol stands for is read by its kind.
    suffices ∃ meaning : Grammar.Meaning flags, meaning.kind = kind ∧
        ∃ rest, rest' = meaning.bytes ++ rest by
      obtain ⟨meaning, rfl, rest, three⟩ := this
      exact ⟨⟨flags, meaning⟩, rest, by rw [one, two, three, Grammar.Symbol.bytes]; simp⟩
    cases kind with
    | function =>
      obtain ⟨reference, rest, whole, -⟩ := (accepts_reference flags).of_bind h
      exact ⟨.function reference, rfl, rest, whole⟩
    | global =>
      obtain ⟨reference, rest, whole, -⟩ := (accepts_reference flags).of_bind h
      exact ⟨.global reference, rfl, rest, whole⟩
    | event =>
      obtain ⟨reference, rest, whole, -⟩ := (accepts_reference flags).of_bind h
      exact ⟨.event reference, rfl, rest, whole⟩
    | table =>
      obtain ⟨reference, rest, whole, -⟩ := (accepts_reference flags).of_bind h
      exact ⟨.table reference, rfl, rest, whole⟩
    | wholeSection =>
      obtain ⟨place, rest, whole, -⟩ := accepts_word.of_bind h
      exact ⟨.wholeSection place, rfl, rest, whole⟩
    | data =>
      obtain ⟨symbol, rest, whole⟩ := (accepts_dataSymbol flags).sound h
      exact ⟨.data symbol.1 symbol.2, rfl, rest, whole⟩

end Reader

end StaticLink
