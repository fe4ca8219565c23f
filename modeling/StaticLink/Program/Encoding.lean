import StaticLink.CustomSection
import StaticLink.Opcode
import StaticLink.Program.Interface
import StaticLink.Program.Relocation
import StaticLink.Writer

/-!
# The linked module as bytes

The sections of the linked module in their order. In each, what the linker supplies comes first
and then the inputs follow in their order.

* `Program.typeEntries`, `Program.importEntries` and so on: the entries of a section, without
  their count.
* `Program.writeFunctionNames`: the names of functions, in a custom section.
* `Program.encode`: the whole module.
-/

namespace StaticLink

namespace Program

/-! ## Parts of entries -/

/-- The spelling of a count, an index, an address or a size. -/
def encodeNat (value : Nat) : Bytes := Leb128.ofUInt32 (UInt32.ofNat value)

/-- A constant expression of type `i32`. -/
def constantExpression (value : Int32) : Bytes :=
  Opcode.i32Const :: Leb128.ofInt32 value ++ [Opcode.endExpression]

/-- What opens an active segment of table or memory zero: its index and the place of its start. -/
def segmentHeader (start : Nat) : Bytes := encodeNat 0 ++ constantExpression (Int32.ofInt start)

/-- For each input the contents of its first section with this id, as `copy` gives them. -/
def copySections (program : Program) (id : SectionId)
    (copy : ModuleId → ObjectModule → Section → Except Error Bytes) : Except Error Bytes := do
  let pieces ← program.modules.zipIdx.mapM fun (module, owner) =>
    match module.section? id with
    | some found => copy owner module found
    | none => return []
  return pieces.flatten

/-- For each input the contents of its first section with this id, relocated. -/
def relocateSections (program : Program) (id : SectionId) : Except Error Bytes :=
  program.copySections id fun owner _ found => program.relocate owner found found.header.payload

/-! ## Types -/

/-- The signature of a function without parameters and results. -/
def emptySignature : Bytes := [0x60, 0, 0]

def typeEntries (program : Program) : Except Error Bytes := do
  let leading := if program.symbols.callsConstructors then emptySignature else []
  let copied ← program.copySections .types fun _ module found => module.slice found.header.payload
  return leading ++ copied

/-! ## Imports -/

def importCount (program : Program) : Nat :=
  program.imports.functions.length + program.imports.globals.length

def importName (name : ImportName) (kind : ExternalKind) : Bytes :=
  Text.encode name.module ++ Text.encode name.field ++ [kind.toByte]

def importEntries (program : Program) : Bytes :=
  (program.imports.functions.flatMap fun (name, type) =>
    importName name .function ++ encodeNat type) ++
  (program.imports.globals.flatMap fun (name, type) => importName name .global ++ type.encode)

/-! ## Functions -/

def functionCount (program : Program) : Nat :=
  program.symbols.syntheticFunctions.length + countAll (·.functions.size) program.modules

def functionEntries (program : Program) : Except Error Bytes := do
  return (← program.functionTypes).flatMap encodeNat

/-! ## Table and memory -/

/-- The limits of the table, which has one slot for each entry and one that stays empty. -/
def tableLimits (program : Program) : Limits :=
  let size := UInt32.ofNat (firstSlot + program.elementCount)
  { initial := size, maximum := some size, shared := false }

/-- The limits of the memory, which ends with the stack. -/
def memoryLimits (program : Program) : Limits :=
  { initial := UInt32.ofNat (stackPages program.stackTop), maximum := none, shared := false }

/-! ## Globals -/

/-- The globals that the linker supplies, by their initial values. -/
def syntheticGlobals (program : Program) : List Int32 :=
  program.symbols.syntheticGlobals.filterMap fun id =>
    match (program.symbols.records[id]?).map (·.target) with
    | some (Target.global (.synthesized initial)) => some initial
    | _ => none

def globalCount (program : Program) : Nat :=
  program.syntheticGlobals.length + countAll (·.globals.size) program.modules

/-- The type of the globals that the linker supplies. -/
def syntheticGlobalType : GlobalType := { content := .i32, mutable := true }

def globalEntries (program : Program) : Except Error Bytes := do
  let synthetic := program.syntheticGlobals.flatMap fun initial =>
    syntheticGlobalType.encode ++ constantExpression initial
  return synthetic ++ (← program.relocateSections .globals)

/-! ## Exports -/

def exportEntries (exports : List (String × ExternalKind × Nat)) : Bytes :=
  exports.flatMap fun (name, kind, index) => Text.encode name ++ kind.toByte :: encodeNat index

/-! ## Elements -/

/-- The functions that fill the table, from its first slot on. -/
def tableFunctions (program : Program) : Except Error (List Nat) :=
  let entries := program.modules.zipIdx.flatMap fun (module, owner) =>
    module.elementSegments.toList.flatMap fun segment => segment.functions.map (owner, ·)
  entries.mapM fun (owner, index) => program.inputFunctionIndex owner index

/-- All entries are in one segment. -/
def elementSegmentCount (program : Program) : Nat := if program.elementCount = 0 then 0 else 1

def elementEntries (program : Program) : Except Error Bytes := do
  let functions ← program.tableFunctions
  return segmentHeader firstSlot ++ encodeNat program.elementCount ++ functions.flatMap encodeNat

/-! ## Code -/

/-- A function body: its size, no local variables, then `instructions` up to the end. -/
def functionBody (instructions : Bytes) : Bytes :=
  let body := 0 :: instructions ++ [Opcode.endExpression]
  encodeNat body.length ++ body

/-- The body of a function that the linker supplies. -/
def syntheticBody (program : Program) (id : SymbolId) : Except Error Bytes := do
  match (← program.symbols.get id).target with
  | .function (.synthesized (.constructorCaller initializers)) =>
    let functions ← initializers.mapM program.functionIndex
    return functionBody (functions.flatMap fun index => Opcode.call :: encodeNat index)
  | .function (.synthesized (.trapStub _ _)) => return functionBody [Opcode.unreachable]
  | _ => throw .dangling

/-- How many bodies there are. What the inputs declare is added to a word. -/
def codeCount (program : Program) : Nat :=
  program.symbols.syntheticFunctions.length % wordLimit +
    countAll (·.declaredCount .code) program.modules

def codeEntries (program : Program) : Except Error Bytes := do
  let synthetic ← program.symbols.syntheticFunctions.mapM program.syntheticBody
  return synthetic.flatten ++ (← program.relocateSections .code)

/-! ## Data -/

/-- The bytes of a chunk, relocated. -/
def chunkContents (program : Program) (chunk : Chunk) : Except Error Bytes := do
  let module ← program.input chunk.owner
  match module.section? .data, module.dataSegments[chunk.segment]? with
  | some found, some segment => program.relocate chunk.owner found segment.data
  | _, _ => throw (.malformed ⟨.invalidSegmentIndex (UInt32.ofNat chunk.segment), 0⟩)

/-- The bytes of an output segment of this size after the first `written` ones: the chunks that
are left at their offsets, and zeros elsewhere. -/
def fillChunks (program : Program) (size : Nat) :
    (written : Nat) → (chunks : List Chunk) → Except Error Bytes
  | written, [] => return List.replicate (size - written) 0
  | written, chunk :: rest => do
    let contents ← program.chunkContents chunk
    let rest ← fillChunks program size (chunk.offset + contents.length) rest
    return List.replicate (chunk.offset - written) 0 ++ contents ++ rest

/-- The bytes of an output segment. -/
def segmentContents (program : Program) (segment : OutputSegment) : Except Error Bytes :=
  program.fillChunks segment.size 0 segment.chunks.toList

def dataEntry (program : Program) (segment : OutputSegment) : Except Error Bytes := do
  let contents ← program.segmentContents segment
  return segmentHeader segment.address ++ encodeNat segment.size ++ contents

def dataEntries (program : Program) : Except Error Bytes := do
  return (← program.layout.segments.mapM program.dataEntry).flatten

/-! ## The whole module -/

/-- Writes the names of functions. -/
def writeFunctionNames (writer : Writer) (names : List (UInt32 × String)) :
    Except Error Writer := do
  let (nameSection, writer) := writer.openCustomSection CustomSection.namesName
  let (subsection, writer) := (writer.append [CustomSection.functionNames]).openSize
  let entries := names.flatMap fun (index, name) => Leb128.ofUInt32 index ++ Text.encode name
  let writer ← (writer.append (encodeNat names.length ++ entries)).closeSize subsection
  writer.closeSize nameSection

/-- Writes the sections up to the exports. -/
def writeDeclarations (program : Program) (interface : Interface) (writer : Writer) :
    Except Error Writer := do
  let writer ← writer.addVector .types (.ofNat program.typeCount) program.typeEntries
  let writer ← writer.addVector .imports (.ofNat program.importCount) (.ok program.importEntries)
  let writer ← writer.addVector .functions (.ofNat program.functionCount) program.functionEntries
  let writer ← writer.addVector .tables 1 (.ok program.tableLimits.encodeTable)
  let writer ← writer.addVector .memories 1 (.ok program.memoryLimits.encode)
  let writer ← writer.addVector .globals (.ofNat program.globalCount) program.globalEntries
  writer.addVector .exports (.ofNat interface.exports.length)
    (.ok (exportEntries interface.exports))

/-- Writes the sections that follow the one for the start function. -/
def writeContents (program : Program) (writer : Writer) : Except Error Writer := do
  let writer ← writer.addVector .elements (.ofNat program.elementSegmentCount)
    program.elementEntries
  let writer ← writer.addVector .code (.ofNat program.codeCount) program.codeEntries
  writer.addVector .data (.ofNat program.layout.segments.length) program.dataEntries

/-- The linked module. Nothing is written where the bodies cannot be counted. -/
def encode (program : Program) (interface : Interface) : Except Error Bytes := do
  let _ ← inWord program.codeCount
  let writer ← program.writeDeclarations interface (Writer.empty.append Header.encode)
  let writer ← match interface.start with
    | some function => writer.addSection .start (encodeNat function)
    | none => pure writer
  let writer ← program.writeContents writer
  let writer ← match interface.functionNames with
    | some names => writeFunctionNames writer names
    | none => pure writer
  return writer.bytes

end Program

end StaticLink
