import StaticLink.Defect

/-!
# Section identifiers

The sections of a module, each known by the byte that opens it.
-/

namespace StaticLink

inductive SectionId
  | custom
  | types
  | imports
  | functions
  | tables
  | memories
  | globals
  | exports
  | start
  | elements
  | code
  | data
  | dataCount
deriving DecidableEq, Repr

namespace SectionId

/-- The byte that opens the section. -/
def toByte : SectionId → UInt8
  | custom => 0
  | types => 1
  | imports => 2
  | functions => 3
  | tables => 4
  | memories => 5
  | globals => 6
  | exports => 7
  | start => 8
  | elements => 9
  | code => 10
  | data => 11
  | dataCount => 12

/-- The section that `byte` opens. -/
def ofByte (byte : UInt8) : Except Defect SectionId :=
  match byte with
  | 0 => .ok custom
  | 1 => .ok types
  | 2 => .ok imports
  | 3 => .ok functions
  | 4 => .ok tables
  | 5 => .ok memories
  | 6 => .ok globals
  | 7 => .ok exports
  | 8 => .ok start
  | 9 => .ok elements
  | 10 => .ok code
  | 11 => .ok data
  | 12 => .ok dataCount
  | _ => .error (.invalidSectionCode byte)

@[simp] theorem ofByte_toByte (id : SectionId) : ofByte id.toByte = .ok id := by
  cases id <;> rfl

/-- Whether the contents are a count and as many entries. -/
def isVector : SectionId → Bool
  | custom | start | dataCount => false
  | _ => true

end SectionId

end StaticLink
