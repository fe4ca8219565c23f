import StaticLink.Proofs.Scan.Reading
import StaticLink.Proofs.Scan.Sections

/-!
# Where a cursor can come

Whatever is asked of a cursor and whatever comes of it, the cursor moves forward only and stays in
its file. What it gives is told by the bytes that it moves over.

* `Reader.Confined`: what a reader keeps to, whether it succeeds or fails.
* `Reader.Steady`: a reader that leaves the cursor alone where it fails.
* `Reader.Call`: the calls that can be made, and `Cursor.run`, where some of them lead.
* `Reader.calls_confined`: what holds between any two calls.
-/

namespace StaticLink

/-- Bytes that have a piece at some position go on with it there. -/
theorem Bytes.exists_drop_of_slice? {bytes piece : Bytes} {start : Nat}
    (h : bytes.slice? ⟨start, start + piece.length⟩ = some piece) :
    ∃ rest, bytes.drop start = piece ++ rest := by
  unfold Bytes.slice? at h
  rw [if_pos (Nat.le_add_right _ _)] at h
  obtain ⟨⟨first, rest⟩, split, rfl⟩ := Option.map_eq_some_iff.1 h
  exact ⟨rest, (Bytes.append_of_splitExactly? split).1⟩

/-- The cursor that a reader leaves, whether it succeeds or fails. -/
def Cursor.after {α : Type} (cursor : Cursor) (reader : Reader α) : Cursor :=
  match reader cursor with
  | .ok _ next => next
  | .error _ next => next

namespace Reader

variable {α β : Type} {reader : Reader α} {next : α → Reader β} {cursor : Cursor}

/-! ## Combining readers -/

/-- The reader keeps to the bytes ahead of the cursor. -/
structure Confined (reader : Reader α) : Prop where
  /-- Where it fails, it has moved forward over bytes that are there. -/
  failed : ∀ cursor fault last, reader cursor = .error fault last →
    ∃ size, size ≤ cursor.rest.length ∧ last = cursor.advance size
  /-- Where it succeeds, what it gives is told by where it stands and by the bytes that it takes. -/
  told : ∀ cursor value last, reader cursor = .ok value last →
    ∃ taken, cursor.rest = taken ++ last.rest ∧ last.position = cursor.position + taken.length ∧
      ∀ rest, reader ⟨cursor.position, taken ++ rest⟩ = .ok value ⟨last.position, rest⟩

/-- Where it fails, the reader leaves the cursor where it was. -/
def Steady (reader : Reader α) : Prop :=
  ∀ cursor fault last, reader cursor = .error fault last → last = cursor

/-- A reader that succeeds has moved forward over bytes that are there, too. -/
theorem Confined.succeeded (confined : Confined reader) {value : α} {last : Cursor}
    (h : reader cursor = .ok value last) :
    ∃ size, size ≤ cursor.rest.length ∧ last = cursor.advance size := by
  obtain ⟨taken, ahead, position, -⟩ := confined.told cursor value last h
  refine ⟨taken.length, ?_, ?_⟩
  · rw [ahead, List.length_append]
    exact Nat.le_add_right _ _
  · obtain ⟨place, rest⟩ := last
    rw [Cursor.advance, ahead, List.drop_left]
    exact congrArg (Cursor.mk · rest) position

theorem Confined.bind (first : Confined reader) (second : ∀ value, Confined (next value)) :
    Confined (reader >>= next) where
  failed := by
    intro cursor fault last h
    rcases state_bind_eq_error.1 h with h | ⟨value, middle, one, two⟩
    · exact first.failed cursor fault last h
    · obtain ⟨size, within, rfl⟩ := first.succeeded one
      obtain ⟨size', within', rfl⟩ := (second value).failed _ fault last two
      rw [Cursor.length_rest_advance] at within'
      exact ⟨size + size', by omega, Cursor.advance_advance cursor size size'⟩
  told := by
    intro cursor result last h
    obtain ⟨value, middle, one, two⟩ := state_bind_eq_ok.1 h
    obtain ⟨taken, ahead, position, again⟩ := first.told cursor value middle one
    obtain ⟨taken', ahead', position', again'⟩ := (second value).told middle result last two
    refine ⟨taken ++ taken', ?_, ?_, fun rest => ?_⟩
    · rw [ahead, ahead', List.append_assoc]
    · rw [position', position, List.length_append, Nat.add_assoc]
    · rw [List.append_assoc]
      exact state_bind_eq_ok.2 ⟨value, _, again _, again' rest⟩

theorem confined_pure (value : α) : Confined (pure value) where
  failed := by rintro _ _ _ ⟨⟩
  told := by
    rintro cursor _ _ ⟨⟩
    exact ⟨[], rfl, rfl, fun rest => rfl⟩

theorem confined_position : Confined position where
  failed := by rintro _ _ _ ⟨⟩
  told := by
    rintro cursor _ _ ⟨⟩
    exact ⟨[], rfl, rfl, fun rest => rfl⟩

theorem confined_failAt (offset : Nat) (defect : Defect) :
    Confined (failAt offset defect : Reader α) where
  failed := by
    rintro cursor _ _ ⟨⟩
    exact ⟨0, Nat.zero_le _, rfl⟩
  told := by rintro _ _ _ ⟨⟩

theorem confined_fail (defect : Defect) : Confined (fail defect : Reader α) :=
  confined_position.bind fun position => confined_failAt position defect

theorem Confined.map (confined : Confined reader) (change : α → β) :
    Confined (change <$> reader) := by
  rw [map_eq_pure_bind]
  exact confined.bind fun value => confined_pure (change value)

theorem Confined.discard (confined : Confined reader) : Confined (discard reader) := by
  have same : Functor.discard reader = (fun _ => ()) <$> reader := rfl
  rw [same]
  exact confined.map _

/-! ## Single items -/

theorem steady_item (decode : Bytes → Except Defect (α × Nat)) : Steady (item decode) := by
  intro cursor fault last h
  unfold item at h
  split at h
  · cases h
  · cases h
    rfl

/-- What is taken the same wherever it stands is told by the bytes that are taken. -/
theorem confined_of_takes (steady : Steady reader) (takes : Takes reader) : Confined reader where
  failed := by
    intro cursor fault last h
    exact ⟨0, Nat.zero_le _, steady cursor fault last h⟩
  told := by
    intro cursor value last h
    obtain ⟨taken, ahead, reads⟩ := takes cursor value last h
    have here := reads cursor.position last.rest
    rw [← ahead, h] at here
    have position : last.position = cursor.position + taken.length :=
      congrArg Cursor.position (EStateM.Result.ok.inj here).2
    refine ⟨taken, ahead, position, fun rest => ?_⟩
    rw [position]
    exact reads cursor.position rest

theorem steady_byte : Steady byte := steady_item _

theorem confined_byte : Confined byte := confined_of_takes steady_byte takes_byte

theorem steady_bytes (count : Nat) : Steady (bytes count) := steady_item _

theorem confined_bytes (count : Nat) : Confined (bytes count) :=
  confined_of_takes (steady_bytes count) (takes_bytes count)

/-- The bytes that are given are those ahead of the cursor. -/
theorem bytes_eq_ok {count : Nat} {run : Bytes} {last : Cursor}
    (h : bytes count cursor = .ok run last) :
    ∃ rest, cursor.rest = run ++ rest ∧ run.length = count := by
  unfold bytes item at h
  dsimp only at h
  rcases split : Bytes.splitExactly? cursor.rest count with _ | ⟨first, rest⟩
  · rw [split] at h
    cases h
  · rw [split] at h
    cases h
    exact ⟨rest, Bytes.append_of_splitExactly? split⟩

theorem confined_varUInt32 : Confined varUInt32 :=
  confined_of_takes (steady_item _) (takes_of_prefixed Leb128.prefixed_decodeUInt32)

theorem confined_varInt32 : Confined varInt32 :=
  confined_of_takes (steady_item _) (takes_of_prefixed Leb128.prefixed_decodeInt32)

theorem confined_varInt64 : Confined varInt64 :=
  confined_of_takes (steady_item _) (takes_of_prefixed Leb128.prefixed_decodeInt64)

theorem confined_word : Confined word := (confined_bytes 4).bind fun _ => confined_pure _

theorem steady_word : Steady word := by
  intro cursor fault last h
  rcases state_bind_eq_error.1 h with h | ⟨_, _, _, ⟨⟩⟩
  exact steady_bytes 4 cursor fault last h

theorem confined_code (ofByte : UInt8 → Except Defect α) : Confined (code ofByte) := by
  refine confined_position.bind fun start => confined_byte.bind fun b => ?_
  split
  · exact confined_pure _
  · exact confined_failAt start _

/-! ## Runs of bytes -/

theorem spanAhead_apply (count : Nat) (cursor : Cursor) :
    spanAhead count cursor =
      if cursor.rest.hasAtLeast count then
        .ok ⟨cursor.position, cursor.position + count⟩ cursor
      else .error ⟨.unexpectedEnd, cursor.position⟩ cursor := by
  change (if cursor.rest.hasAtLeast count then _ else _ : Reader Span) cursor = _
  split
  · rfl
  · rfl

theorem span_apply (count : Nat) (cursor : Cursor) :
    span count cursor =
      if cursor.rest.hasAtLeast count then
        .ok ⟨cursor.position, cursor.position + count⟩ (cursor.advance count)
      else .error ⟨.unexpectedEnd, cursor.position⟩ cursor := by
  have ahead := spanAhead_apply count cursor
  by_cases enough : cursor.rest.hasAtLeast count = true
  · rw [if_pos enough] at ahead ⊢
    exact state_bind_eq_ok.2 ⟨_, _, ahead, rfl⟩
  · rw [if_neg enough] at ahead ⊢
    exact state_bind_eq_error.2 (.inl ahead)

theorem advanceTo_apply (stop : Nat) (cursor : Cursor) :
    advanceTo stop cursor =
      if cursor.position ≤ stop ∧ cursor.rest.hasAtLeast (stop - cursor.position) = true then
        .ok () (cursor.advance (stop - cursor.position))
      else .error ⟨.sizeMismatch stop cursor.position, cursor.position⟩ cursor := by
  change (if cursor.position ≤ stop ∧ cursor.rest.hasAtLeast (stop - cursor.position) = true then _
    else _ : Reader Unit) cursor = _
  split
  · rfl
  · rfl

theorem steady_span (count : Nat) : Steady (span count) := by
  intro cursor fault last h
  rw [span_apply] at h
  split at h
  · cases h
  · cases h
    rfl

theorem steady_advanceTo (stop : Nat) : Steady (advanceTo stop) := by
  intro cursor fault last h
  rw [advanceTo_apply] at h
  split at h
  · cases h
  · cases h
    rfl

/-- Bytes that are passed over are told by how many they are. -/
theorem hasAtLeast_take_append {ahead : Bytes} {count : Nat}
    (enough : ahead.hasAtLeast count = true) (rest : Bytes) :
    Bytes.hasAtLeast (ahead.take count ++ rest) count = true ∧
      (ahead.take count ++ rest).drop count = rest := by
  have length : (ahead.take count).length = count :=
    List.length_take_of_le (Bytes.hasAtLeast_iff.1 enough)
  refine ⟨Bytes.hasAtLeast_iff.2 ?_, List.drop_left' length⟩
  rw [List.length_append]
  omega

/-- What passes over bytes and looks at none of them is told by how many they are. -/
theorem confined_of_passes (answers : Nat → α → Prop) (count : Nat → Nat) (steady : Steady reader)
    (passes : ∀ cursor value last, reader cursor = .ok value last ↔
      answers cursor.position value ∧ cursor.rest.hasAtLeast (count cursor.position) = true ∧
        last = cursor.advance (count cursor.position)) : Confined reader where
  failed := fun cursor fault last h => ⟨0, Nat.zero_le _, steady cursor fault last h⟩
  told := by
    intro cursor value last h
    obtain ⟨answer, enough, rfl⟩ := (passes cursor value last).1 h
    have length := List.length_take_of_le (Bytes.hasAtLeast_iff.1 enough)
    refine ⟨cursor.rest.take (count cursor.position), (List.take_append_drop _ _).symm, ?_,
      fun rest => (passes _ _ _).2 ?_⟩
    · rw [length]
      rfl
    · obtain ⟨enough', behind⟩ := hasAtLeast_take_append enough rest
      exact ⟨answer, enough', congrArg (Cursor.mk _) behind.symm⟩

theorem span_eq_ok_iff {count : Nat} {found : Span} {last : Cursor} :
    span count cursor = .ok found last ↔
      found = ⟨cursor.position, cursor.position + count⟩ ∧
        cursor.rest.hasAtLeast count = true ∧ last = cursor.advance count := by
  rw [span_apply]
  split
  · next enough => simp [enough, eq_comm]
  · next few => simp [few]

theorem advanceTo_eq_ok_iff {stop : Nat} {last : Cursor} :
    advanceTo stop cursor = .ok () last ↔
      cursor.position ≤ stop ∧ cursor.rest.hasAtLeast (stop - cursor.position) = true ∧
        last = cursor.advance (stop - cursor.position) := by
  rw [advanceTo_apply]
  split
  · next enough => simp [enough, eq_comm]
  · next few =>
    constructor
    · rintro ⟨⟩
    · rintro ⟨further, enough, -⟩
      exact absurd ⟨further, enough⟩ few

theorem confined_span (count : Nat) : Confined (span count) :=
  confined_of_passes (fun start found => found = ⟨start, start + count⟩) (fun _ => count)
    (steady_span count) fun _ _ _ => span_eq_ok_iff

theorem confined_advanceTo (stop : Nat) : Confined (advanceTo stop) :=
  confined_of_passes (fun start _ => start ≤ stop) (stop - ·) (steady_advanceTo stop)
    fun _ _ _ => advanceTo_eq_ok_iff

theorem confined_expectAt (stop : Nat) : Confined (expectAt stop) := by
  refine confined_position.bind fun position => ?_
  split
  · exact confined_fail _
  · exact confined_pure _

/-! ## Small structures -/

theorem confined_text : Confined text := by
  refine confined_varUInt32.bind fun count => confined_position.bind fun start => ?_
  refine (confined_bytes count.toNat).bind fun bytes => ?_
  split
  · exact confined_pure _
  · exact confined_failAt start _

theorem confined_header : Confined header := by
  refine confined_position.bind fun start => (confined_bytes 4).bind fun magic => ?_
  have version : Confined (do
      let start ← position
      let version ← word
      if version ≠ Header.version then failAt start (.unsupportedVersion version)) := by
    refine confined_position.bind fun start => confined_word.bind fun version => ?_
    split
    · exact confined_failAt start _
    · exact confined_pure _
  dsimp only
  split
  · exact (confined_failAt start _).bind fun _ => version
  · exact version

theorem confined_globalType : Confined globalType :=
  (confined_code _).bind fun _ => (confined_code _).bind fun _ => confined_pure _

theorem confined_limits : Confined limits := by
  refine (confined_code _).bind fun flags => confined_varUInt32.bind fun initial => ?_
  split
  · exact (confined_varUInt32.map some).bind fun _ => confined_pure _
  · exact (confined_pure none).bind fun _ => confined_pure _

theorem confined_tableType : Confined tableType :=
  (confined_code _).bind fun _ => confined_limits

theorem confined_constantI32 : Confined constantI32 :=
  (confined_code _).bind fun _ => confined_varInt32.bind fun _ =>
    (confined_code _).bind fun _ => confined_pure _

theorem confined_skipConstant : Confined skipConstant := by
  have ends : Confined endExpression := confined_code _
  refine confined_position.bind fun start => confined_byte.bind fun opcode => ?_
  dsimp only
  split
  · exact confined_varInt32.discard.bind fun _ => ends
  · exact confined_varInt64.discard.bind fun _ => ends
  · exact (confined_bytes 4).discard.bind fun _ => ends
  · exact (confined_bytes 8).discard.bind fun _ => ends
  · exact confined_varUInt32.discard.bind fun _ => ends
  · exact confined_varUInt32.discard.bind fun _ => ends
  · exact confined_byte.discard.bind fun _ => ends
  · exact (confined_failAt start _).bind fun _ => ends

end Reader

/-! ## Calls in a row -/

namespace Reader

/-- What can be asked of a cursor and may fail. To look where it stands, or whether anything
follows, is no such call. -/
inductive Call
  | byte
  | word
  | varUInt32
  | varInt32
  | varInt64
  | spanAhead (count : Nat)
  | span (count : Nat)
  | bytes (count : Nat)
  | advanceTo (stop : Nat)
  | expectAt (stop : Nat)
  | text
  | header
  | valueType
  | globalType
  | limits
  | tableType
  | constantI32
  | skipConstant
  | endExpression
deriving DecidableEq, Repr

namespace Call

/-- What is given in answer. -/
def Answer : Call → Type
  | byte => UInt8
  | word | varUInt32 => UInt32
  | varInt32 | constantI32 => Int32
  | varInt64 => Int64
  | spanAhead _ | span _ => Span
  | bytes _ => Bytes
  | text => String
  | valueType => ValueType
  | globalType => GlobalType
  | limits | tableType => Limits
  | advanceTo _ | expectAt _ | header | skipConstant | endExpression => Unit

/-- The reader that gives it. -/
def reader : (call : Call) → Reader call.Answer
  | byte => Reader.byte
  | word => Reader.word
  | varUInt32 => Reader.varUInt32
  | varInt32 => Reader.varInt32
  | varInt64 => Reader.varInt64
  | spanAhead count => Reader.spanAhead count
  | span count => Reader.span count
  | bytes count => Reader.bytes count
  | advanceTo stop => Reader.advanceTo stop
  | expectAt stop => Reader.expectAt stop
  | text => Reader.text
  | header => Reader.header
  | valueType => Reader.valueType
  | globalType => Reader.globalType
  | limits => Reader.limits
  | tableType => Reader.tableType
  | constantI32 => Reader.constantI32
  | skipConstant => Reader.skipConstant
  | endExpression => Reader.endExpression

/-- Whether a single item is asked for, or a run of bytes. -/
def isItem : Call → Bool
  | byte | word | varUInt32 | varInt32 | varInt64 | span _ | bytes _ | advanceTo _ => true
  | _ => false

/-- Whether the call is about bytes that stay ahead of the cursor. -/
def looksAhead : Call → Bool
  | spanAhead _ => true
  | _ => false

theorem confined (call : Call) (behind : call.looksAhead = false) : Confined call.reader := by
  cases call with
  | byte => exact confined_byte
  | word => exact confined_word
  | varUInt32 => exact confined_varUInt32
  | varInt32 => exact confined_varInt32
  | varInt64 => exact confined_varInt64
  | spanAhead => cases behind
  | span count => exact confined_span count
  | bytes count => exact confined_bytes count
  | advanceTo stop => exact confined_advanceTo stop
  | expectAt stop => exact confined_expectAt stop
  | text => exact confined_text
  | header => exact confined_header
  | valueType => exact confined_code _
  | globalType => exact confined_globalType
  | limits => exact confined_limits
  | tableType => exact confined_tableType
  | constantI32 => exact confined_constantI32
  | skipConstant => exact confined_skipConstant
  | endExpression => exact confined_code _

theorem steady (call : Call) (item : call.isItem = true) : Steady call.reader := by
  cases call with
  | byte => exact steady_byte
  | varUInt32 => exact steady_item Leb128.decodeUInt32
  | varInt32 => exact steady_item Leb128.decodeInt32
  | varInt64 => exact steady_item Leb128.decodeInt64
  | bytes count => exact steady_bytes count
  | word => exact steady_word
  | span count => exact steady_span count
  | advanceTo stop => exact steady_advanceTo stop
  | _ => cases item

end Call

end Reader

namespace Cursor

open Reader (Call)

variable {file : Bytes} {cursor : Cursor}

/-- The cursor that some calls leave, of which any may fail. -/
def run (cursor : Cursor) (calls : List Call) : Cursor :=
  calls.foldl (fun cursor call => cursor.after call.reader) cursor

/-- A look ahead leaves the cursor where it was. -/
theorem after_spanAhead (cursor : Cursor) (count : Nat) :
    cursor.after (Reader.spanAhead count) = cursor := by
  rw [after, Reader.spanAhead_apply]
  by_cases enough : cursor.rest.hasAtLeast count = true
  · rw [if_pos enough]
  · rw [if_neg enough]

/-- Any call moves the cursor forward over bytes that are there. -/
theorem after_eq_advance (cursor : Cursor) (call : Call) :
    ∃ size, size ≤ cursor.rest.length ∧ cursor.after call.reader = cursor.advance size := by
  rcases ahead : call.looksAhead
  · have confined := call.confined ahead
    rcases answer : call.reader cursor with ⟨value, last⟩ | ⟨fault, last⟩
    · rw [after, answer]
      exact confined.succeeded answer
    · rw [after, answer]
      exact confined.failed cursor fault last answer
  · cases call with
    | spanAhead count => exact ⟨0, Nat.zero_le _, after_spanAhead cursor count⟩
    | _ => cases ahead

/-- Any calls move the cursor forward within its file. -/
theorem In.run (inside : cursor.In file) (calls : List Call) :
    (cursor.run calls).In file ∧ cursor.position ≤ (cursor.run calls).position := by
  induction calls generalizing cursor with
  | nil => exact ⟨inside, Nat.le_refl _⟩
  | cons call calls ih =>
    obtain ⟨size, within, same⟩ := after_eq_advance cursor call
    have one : (cursor.after call.reader).In file := by
      rw [same]
      exact inside.advance within
    have further : cursor.position ≤ (cursor.after call.reader).position := by
      rw [same]
      exact Nat.le_add_right _ _
    obtain ⟨others, furthest⟩ := ih one
    exact ⟨others, Nat.le_trans further furthest⟩

theorem in_ofBytes (file : Bytes) : (ofBytes file).In file := ⟨Nat.zero_le _, rfl⟩

end Cursor

namespace Reader

variable {α : Type} {reader : Reader α} {cursor last : Cursor} {file : Bytes} {count : Nat}

/-- A span that is given is that of bytes ahead of the cursor. -/
theorem span_within {span : Span}
    (h : spanAhead count cursor = .ok span last ∨ Reader.span count cursor = .ok span last) :
    span = ⟨cursor.position, cursor.position + count⟩ ∧ count ≤ cursor.rest.length := by
  rcases h with h | h
  · exact (spanAhead_eq_ok h).2
  · obtain ⟨rfl, enough, -⟩ := span_eq_ok_iff.1 h
    exact ⟨rfl, Bytes.hasAtLeast_iff.1 enough⟩

/-- What is told by the bytes that are taken is given by every file that has these bytes there. -/
theorem Confined.elsewhere (confined : Confined reader) (inside : cursor.In file) {value : α}
    (h : reader cursor = .ok value last) {other : Bytes}
    (same : other.slice? ⟨cursor.position, last.position⟩ =
      file.slice? ⟨cursor.position, last.position⟩) :
    reader ⟨cursor.position, other.drop cursor.position⟩ =
      .ok value ⟨last.position, other.drop last.position⟩ := by
  obtain ⟨taken, ahead, position, again⟩ := confined.told cursor value last h
  rw [inside.2] at ahead
  rw [position, Bytes.slice?_of_drop ahead] at same
  obtain ⟨rest, there⟩ := Bytes.exists_drop_of_slice? same
  have behind : other.drop last.position = rest := by
    rw [position, ← List.drop_drop, there, List.drop_left]
  rw [there, behind]
  exact again rest

/-- Whatever was asked of a cursor on a file before, and whatever came of it, and whatever is asked
next: the cursor never goes back and never leaves the file, and all spans and bytes that it gives
lie in the file. Where a single item fails, the cursor stays where it was. Where a call succeeds
that does not look ahead, it does so on every other file that has the same bytes where they are
taken, with the same answer and the same position behind them. -/
theorem calls_confined (file : Bytes) (earlier : List Call) :
    let here := (Cursor.ofBytes file).run earlier
    (∀ later, here.position ≤ (here.run later).position ∧
        (here.run later).position ≤ file.length ∧
        (here.run later).rest = file.drop (here.run later).position) ∧
      (∀ count span last,
        spanAhead count here = .ok span last ∨ Reader.span count here = .ok span last →
          span = ⟨here.position, here.position + count⟩ ∧ span.stop ≤ file.length) ∧
      (∀ count run last, bytes count here = .ok run last →
        file.slice? ⟨here.position, here.position + count⟩ = some run) ∧
      (∀ call : Call, call.isItem = true → ∀ fault last,
        call.reader here = .error fault last → last = here) ∧
      ∀ call : Call, call.looksAhead = false → ∀ value last, call.reader here = .ok value last →
        ∀ other : Bytes, other.slice? ⟨here.position, last.position⟩ =
          file.slice? ⟨here.position, last.position⟩ →
          call.reader ⟨here.position, other.drop here.position⟩ =
            .ok value ⟨last.position, other.drop last.position⟩ := by
  intro here
  have inside : here.In file := ((Cursor.in_ofBytes file).run earlier).1
  refine ⟨fun later => ?_, fun count span last h => ?_, fun count run last h => ?_,
    fun call item fault last h => call.steady item here fault last h,
    fun call behind value last h other same => (call.confined behind).elsewhere inside h same⟩
  · obtain ⟨inside', further⟩ := inside.run later
    exact ⟨further, inside'⟩
  · obtain ⟨rfl, enough⟩ := span_within h
    have le := inside.1
    rw [inside.2, List.length_drop] at enough
    exact ⟨rfl, show here.position + count ≤ file.length by omega⟩
  · obtain ⟨rest, ahead, rfl⟩ := bytes_eq_ok h
    rw [inside.2] at ahead
    exact Bytes.slice?_of_drop ahead

/-- A text of which bytes are missing has used up their count where it fails. -/
example : ((Cursor.ofBytes [2, 0x61]).run [.text]).position = 1 := rfl

end Reader

end StaticLink
