import StaticLink.Leb128

/-!
# Cursors

A `Cursor` is a position in a file and the bytes that follow it. A `Reader` moves a cursor forward
and gives a value or a fault. When a reader fails, the cursor stays where the failing step left it.

* `Reader.item`: a value decoded from the bytes at the cursor. A failing item does not move it.
* `Reader.byte`, `Reader.word`, `Reader.varUInt32` and the like: the single items.
* `Reader.code`: a byte that must be the code of something.
* `Reader.spanAhead`, `Reader.span`, `Reader.bytes`, `Reader.advanceTo`: runs of bytes.
-/

namespace StaticLink

/-- A position in a file and the bytes from there to its end. -/
structure Cursor where
  position : Nat
  rest : Bytes
deriving DecidableEq, Repr

namespace Cursor

/-- The cursor at the start of `bytes`. -/
def ofBytes (bytes : Bytes) : Cursor := ⟨0, bytes⟩

/-- Whether nothing follows. -/
def atEnd (cursor : Cursor) : Bool := cursor.rest.isEmpty

/-- The cursor `count` bytes further on. -/
def advance (cursor : Cursor) (count : Nat) : Cursor :=
  ⟨cursor.position + count, cursor.rest.drop count⟩

end Cursor

/-- A step that moves a cursor and gives a value, or a fault. -/
abbrev Reader := EStateM Fault Cursor

namespace Reader

/-! ## Positions and faults -/

/-- The position of the cursor. -/
def position : Reader Nat := return (← get).position

/-- Fails with a defect detected at `offset`. -/
def failAt {α : Type} (offset : Nat) (defect : Defect) : Reader α := throw ⟨defect, offset⟩

/-- Fails with a defect detected at the cursor. -/
def fail {α : Type} (defect : Defect) : Reader α := do failAt (← position) defect

/-- Checks that the cursor has come to `stop`. -/
def expectAt (stop : Nat) : Reader Unit := do
  let position ← position
  if position ≠ stop then fail (.sizeMismatch stop position)

/-! ## Single items -/

/-- The value at the cursor, as `decode` reads it, with the count of bytes it takes. -/
def item {α : Type} (decode : Bytes → Except Defect (α × Nat)) : Reader α := fun cursor =>
  match decode cursor.rest with
  | .ok (value, size) => .ok value (cursor.advance size)
  | .error defect => .error ⟨defect, cursor.position⟩ cursor

/-- The next byte. -/
def byte : Reader UInt8 := item fun
  | b :: _ => .ok (b, 1)
  | [] => .error .unexpectedEnd

/-- The next `count` bytes. -/
def bytes (count : Nat) : Reader Bytes := item fun rest =>
  match rest.splitExactly? count with
  | some (first, _) => .ok (first, count)
  | none => .error .unexpectedEnd

/-- A word of four bytes, lowest first. -/
def word : Reader UInt32 := return UInt32.ofNat (ofLittleEndian (← bytes 4))

def varUInt32 : Reader UInt32 := item Leb128.decodeUInt32

def varInt32 : Reader Int32 := item Leb128.decodeInt32

def varInt64 : Reader Int64 := item Leb128.decodeInt64

/-- A byte that must be the code of something. -/
def code {α : Type} (ofByte : UInt8 → Except Defect α) : Reader α := do
  let start ← position
  match ofByte (← byte) with
  | .ok value => return value
  | .error defect => failAt start defect

/-! ## Runs of bytes -/

/-- The span of the next `count` bytes, which stay ahead of the cursor. -/
def spanAhead (count : Nat) : Reader Span := do
  let cursor ← get
  if cursor.rest.hasAtLeast count then return ⟨cursor.position, cursor.position + count⟩
  else fail .unexpectedEnd

/-- The span of the next `count` bytes. -/
def span (count : Nat) : Reader Span := do
  let span ← spanAhead count
  modify (·.advance count)
  return span

/-- Moves the cursor on to `stop`. -/
def advanceTo (stop : Nat) : Reader Unit := do
  let cursor ← get
  if cursor.position ≤ stop ∧ cursor.rest.hasAtLeast (stop - cursor.position) then
    set (cursor.advance (stop - cursor.position))
  else fail (.sizeMismatch stop cursor.position)

end Reader

end StaticLink
