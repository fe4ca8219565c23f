import StaticLink.Cursor
import StaticLink.Entity
import StaticLink.Header
import StaticLink.Opcode
import StaticLink.Text

/-!
# Reading small structures

* `Reader.header`, `Reader.text`: the opening of a module, and names.
* `Reader.valueType`, `Reader.globalType`, `Reader.limits`, `Reader.tableType`: types.
* `Reader.constantI32`: the offset of a segment.
* `Reader.skipConstant`: the initial value of a global, which is only checked.

A byte that is not what must stand in its place is reported at its own position.
-/

namespace StaticLink.Reader

/-- A name: the count of its bytes, then the bytes. -/
def text : Reader String := do
  let count ← varUInt32
  let start ← position
  match Text.ofUtf8? (← bytes count.toNat) with
  | some text => return text
  | none => failAt start .invalidUtf8

/-- The magic bytes and the version that open a module. -/
def header : Reader Unit := do
  let start ← position
  if (← bytes Header.magic.length) ≠ Header.magic then failAt start .badMagic
  let start ← position
  let version ← word
  if version ≠ Header.version then failAt start (.unsupportedVersion version)

def valueType : Reader ValueType := code ValueType.ofByte

def globalType : Reader GlobalType := do
  let content ← valueType
  let mutable ← code fun
    | 0 => .ok false
    | 1 => .ok true
    | b => .error (.invalidMutability b)
  return { content, mutable }

/-- The flags that open the limits: whether there is a maximum, and whether it is shared. -/
def limitsFlags : Reader (Bool × Bool) := code fun
  | 0 => .ok (false, false)
  | 1 => .ok (true, false)
  | 2 => .ok (false, true)
  | 3 => .ok (true, true)
  | b => .error (.invalidLimits b)

def limits : Reader Limits := do
  let (bounded, shared) ← limitsFlags
  let initial ← varUInt32
  let maximum ← if bounded then some <$> varUInt32 else pure none
  return { initial, maximum, shared }

/-- The limits of a table of function references. -/
def tableType : Reader Limits := do
  code fun b => if b = Limits.functionReference then .ok () else .error (.invalidElementType b)
  limits

/-- The end of a constant expression. -/
def endExpression : Reader Unit := code fun
  | Opcode.endExpression => .ok ()
  | b => .error (.expectedEnd b)

/-- The offset of a segment: a constant of type `i32`. -/
def constantI32 : Reader Int32 := do
  code fun
    | Opcode.i32Const => .ok ()
    | b@Opcode.i64Const | b@Opcode.f32Const | b@Opcode.f64Const | b@Opcode.globalGet =>
      .error (.expectedI32Constant b)
    | b => .error (.expectedConstant b)
  let value ← varInt32
  endExpression
  return value

/-- Reads past the initial value of a global. -/
def skipConstant : Reader Unit := do
  let start ← position
  match ← byte with
  | Opcode.i32Const => discard varInt32
  | Opcode.i64Const => discard varInt64
  | Opcode.f32Const => discard (bytes 4)
  | Opcode.f64Const => discard (bytes 8)
  | Opcode.globalGet | Opcode.refFunc => discard varUInt32
  | Opcode.refNull => discard byte
  | b => failAt start (.expectedConstant b)
  endExpression

end StaticLink.Reader
