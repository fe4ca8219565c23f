import StaticLink.Event
import StaticLink.Symbol

/-!
# Object modules

What the linker keeps of one input. All spans are positions in its `bytes`.

* `ObjectModule`: the input with its sections, imports, definitions, segments and symbols.
* `Slot`: what an entry of its symbol table leads to.
* `ObjectModule.section?`, `ObjectModule.slot`, `ObjectModule.slice`: look-ups.
-/

namespace StaticLink

/-- A section and the relocations against its contents. -/
structure Section where
  header : SectionHeader
  relocations : Array Relocation := #[]
deriving DecidableEq, Repr

structure FunctionImport where
  module : String
  field : String
  typeIndex : UInt32
  /-- The symbol that stands for the import, once the symbol table has named it. -/
  symbol : Option SymbolId := none
deriving DecidableEq, Repr

structure GlobalImport where
  module : String
  field : String
  type : GlobalType
  /-- The symbol that stands for the import, once the symbol table has named it. -/
  symbol : Option SymbolId := none
deriving DecidableEq, Repr

structure TableImport where
  module : String
  field : String
  limits : Limits
deriving DecidableEq, Repr

structure Export where
  name : String
  kind : ExternalKind
  index : UInt32
deriving DecidableEq, Repr

/-- Functions to be put into a table from `offset` on. -/
structure ElementSegment where
  table : UInt32
  offset : Int32
  /-- Function indices of the module, where imports come first. -/
  functions : List UInt32
deriving DecidableEq, Repr

/-- What a data segment is called, and how it must be aligned. -/
structure SegmentInfo where
  name : String := ".data"
  /-- The alignment as an exponent of two. -/
  alignment : UInt32 := 0
  flags : UInt32 := 0
deriving DecidableEq, Repr

/-- Bytes to be put into memory. -/
structure DataSegment where
  memory : UInt32
  offset : Int32
  data : Span
  info : SegmentInfo := {}
deriving DecidableEq, Repr

/-- A function to be called at start, by its entry in the module's symbol table. Lower priorities
are called first. -/
structure Initializer where
  priority : UInt32
  symbol : UInt32
deriving DecidableEq, Repr

/-- What an entry of a module's symbol table leads to. -/
inductive Slot
  /-- A function, global or data symbol. -/
  | symbol (id : SymbolId)
  /-- A section as a whole, by its position. -/
  | wholeSection (position : UInt32)
  | table (index : UInt32)
deriving DecidableEq, Repr

/-- One input of a link. -/
structure ObjectModule where
  name : String
  bytes : Bytes
  /-- All sections in file order, custom ones included. -/
  sections : Array Section := #[]
  functionImports : Array FunctionImport := #[]
  globalImports : Array GlobalImport := #[]
  tableImports : Array TableImport := #[]
  memoryImports : Nat := 0
  /-- The type index of each defined function. -/
  functions : Array UInt32 := #[]
  /-- How many tables the module defines. -/
  tables : Nat := 0
  globals : Array GlobalType := #[]
  exports : Array Export := #[]
  start : Option UInt32 := none
  elementSegments : Array ElementSegment := #[]
  dataSegments : Array DataSegment := #[]
  /-- Names of functions by their index in the module, where imports come first. -/
  functionNames : Array (UInt32 × String) := #[]
  /-- One slot for each entry of the module's symbol table. -/
  slots : Array Slot := #[]
  initializers : Array Initializer := #[]
deriving DecidableEq, Repr

namespace DataSegment

/-- Number of bytes of the segment. -/
def size (segment : DataSegment) : Nat := segment.data.size

end DataSegment

namespace ObjectModule

/-- The first section with this id. -/
def section? (module : ObjectModule) (id : SectionId) : Option Section :=
  module.sections.find? (·.header.id == id)

/-- What entry `index` of the symbol table leads to. -/
def slot (module : ObjectModule) (index : UInt32) : Except Error Slot :=
  match module.slots[index.toNat]? with
  | some slot => .ok slot
  | none => .error (.malformed ⟨.invalidSymbolIndex index, 0⟩)

/-- The bytes at the positions of `span`. -/
def slice (module : ObjectModule) (span : Span) : Except Error Bytes :=
  existing (module.bytes.slice? span)

def functionImport (module : ObjectModule) (position : UInt32) : Except Error FunctionImport :=
  existing module.functionImports[position.toNat]?

def globalImport (module : ObjectModule) (position : UInt32) : Except Error GlobalImport :=
  existing module.globalImports[position.toNat]?

/-- How many table slots the element segments fill. -/
def elementCount (module : ObjectModule) : Nat :=
  (module.elementSegments.toList.flatMap (·.functions)).length

end ObjectModule

end StaticLink
