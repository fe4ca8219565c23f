import StaticLink.CustomSection
import StaticLink.Event
import StaticLink.Header
import StaticLink.Opcode
import StaticLink.Proofs.Grammar.Numbers
import StaticLink.Text

/-!
# The object format

An object file as a syntax tree. Each kind of node has its `bytes`, which is all that a file holds
of it, and most have a `value` or the events that are read off it. Nothing here refers to a cursor
or to a scan.

Numbers stand in the tree with their spelling, so that a tree has one text. Conditions on what may
stand together (a name if the flags of a symbol ask for one, a size that is that of the contents)
are fields of the nodes.

* `Grammar.Name`, `Grammar.Counted`: names and lists, each after the count of what is in it.
* `Grammar.Limits`, `Grammar.Constant`, `Grammar.Offset`: types and constant expressions.
* `Grammar.Import`, `Grammar.ElementSegment` and the like: the entries of sections.
* `Grammar.rowEvents`: the events of nodes that stand in a row.
* `Grammar.Entries`, `Grammar.CustomContents`, `Grammar.Contents`: the contents of sections.
* `Grammar.Section`, `Grammar.Module`: sections and files.
-/

namespace StaticLink.Grammar

/-! ## Names and lists -/

/-- A name: the count of its bytes, then the bytes. -/
structure Name where
  size : Word
  text : String
  counted : size.value.toNat = (Text.utf8 text).length

def Name.bytes (name : Name) : Bytes := name.size.bytes ++ Text.utf8 name.text

/-- A count, then as many items. -/
structure Counted (ν : Type) where
  count : Word
  items : List ν
  counted : count.value.toNat = items.length

def Counted.bytes {ν : Type} (item : ν → Bytes) (list : Counted ν) : Bytes :=
  list.count.bytes ++ list.items.flatMap item

/-- Something that is there exactly if the condition holds. -/
structure Optional (ν : Type) (condition : Bool) where
  node : Option ν
  present : node.isSome = condition

def Optional.bytes {ν : Type} {condition : Bool} (bytes : ν → Bytes)
    (optional : Optional ν condition) : Bytes := optional.node.elim [] bytes

/-! ## Types and constant expressions -/

/-- The sizes of a table or a memory, after flags that say which there are. -/
structure Limits where
  initial : Word
  maximum : Option Word
  shared : Bool

namespace Limits

def value (limits : Limits) : StaticLink.Limits :=
  ⟨limits.initial.value, limits.maximum.map Unsigned.value, limits.shared⟩

def bytes (limits : Limits) : Bytes :=
  limits.value.flags :: limits.initial.bytes ++ limits.maximum.elim [] Unsigned.bytes

/-- The type of a table of function references. -/
def tableBytes (limits : Limits) : Bytes := StaticLink.Limits.functionReference :: limits.bytes

end Limits

/-- The initial value of a global: one constant instruction. -/
inductive Constant
  | i32 (value : SignedWord)
  | i64 (value : SignedLong)
  | f32 (value : Bytes) (size : value.length = 4)
  | f64 (value : Bytes) (size : value.length = 8)
  | global (index : Word)
  | function (index : Word)
  | null (type : UInt8)

namespace Constant

def opcode : Constant → UInt8
  | i32 _ => Opcode.i32Const
  | i64 _ => Opcode.i64Const
  | f32 _ _ => Opcode.f32Const
  | f64 _ _ => Opcode.f64Const
  | global _ => Opcode.globalGet
  | function _ => Opcode.refFunc
  | null _ => Opcode.refNull

/-- What stands between the opcode and the end of the expression. -/
def operandBytes : Constant → Bytes
  | i32 value => value.bytes
  | i64 value => value.bytes
  | f32 value _ | f64 value _ => value
  | global index | function index => index.bytes
  | null type => [type]

def bytes (constant : Constant) : Bytes :=
  constant.opcode :: constant.operandBytes ++ [Opcode.endExpression]

end Constant

/-- The offset of a segment: a constant of type `i32`. -/
structure Offset where
  value : SignedWord

def Offset.bytes (offset : Offset) : Bytes :=
  Opcode.i32Const :: offset.value.bytes ++ [Opcode.endExpression]

/-! ## Places -/

/-- How many entities of each kind are imported. -/
structure ImportCounts where
  functions : Nat
  tables : Nat
  memories : Nat
  globals : Nat

/-- Where a node stands in a file: at this position, behind so many sections and imports. -/
structure Place where
  position : Nat
  sections : Nat
  imports : ImportCounts

namespace Place

/-- The place so many bytes further on. -/
def past (place : Place) (size : Nat) : Place := { place with position := place.position + size }

/-- The place behind a node that is no import. -/
def behind {ν : Type} (bytes : ν → Bytes) (place : Place) (node : ν) : Place :=
  place.past (bytes node).length

end Place

/-- The events of nodes that stand in a row, where those of one depend on its number and its place,
and `after` is the place behind it. -/
def rowEvents {ν : Type} (events : Nat → Place → ν → List Event) (after : Place → ν → Place) :
    (number : Nat) → (place : Place) → (nodes : List ν) → List Event
  | _, _, [] => []
  | number, place, node :: later =>
    events number place node ++ rowEvents events after (number + 1) (after place node) later

/-! ## Entries of vector sections -/

/-- What is imported, and its type. -/
inductive Imported
  | function (type : Word)
  | table (limits : Limits)
  | memory (limits : Limits)
  | global (type : GlobalType)

def Imported.bytes : Imported → Bytes
  | function type => ExternalKind.function.toByte :: type.bytes
  | table limits => ExternalKind.table.toByte :: limits.tableBytes
  | memory limits => ExternalKind.memory.toByte :: limits.bytes
  | global type => ExternalKind.global.toByte :: type.encode

/-- The counts with one more import. -/
def ImportCounts.add (counts : ImportCounts) : Imported → ImportCounts
  | .function _ => { counts with functions := counts.functions + 1 }
  | .table _ => { counts with tables := counts.tables + 1 }
  | .memory _ => { counts with memories := counts.memories + 1 }
  | .global _ => { counts with globals := counts.globals + 1 }

structure Import where
  module : Name
  field : Name
  imported : Imported

namespace Import

def bytes (entry : Import) : Bytes :=
  entry.module.bytes ++ (entry.field.bytes ++ entry.imported.bytes)

/-- The index of an import is the count of those of its kind before it. -/
def event (entry : Import) (before : ImportCounts) : Event :=
  match entry.imported with
  | .function type =>
    .functionImport entry.module.text entry.field.text (.ofNat before.functions) type.value
  | .table limits =>
    .tableImport entry.module.text entry.field.text (.ofNat before.tables) limits.value
  | .memory limits =>
    .memoryImport entry.module.text entry.field.text (.ofNat before.memories) limits.value
  | .global type =>
    .globalImport entry.module.text entry.field.text (.ofNat before.globals) type

def after (place : Place) (entry : Import) : Place :=
  { place with
    position := place.position + entry.bytes.length
    imports := place.imports.add entry.imported }

end Import

structure Global where
  type : GlobalType
  initial : Constant

def Global.bytes (entry : Global) : Bytes := entry.type.encode ++ entry.initial.bytes

structure Export where
  name : Name
  kind : ExternalKind
  index : Word

namespace Export

def bytes (entry : Export) : Bytes := entry.name.bytes ++ entry.kind.toByte :: entry.index.bytes

def event (entry : Export) : Event := .exported entry.name.text entry.kind entry.index.value

end Export

/-- The flags of a segment, and the table or memory that it is for. -/
inductive SegmentOwner
  | first (flags : Word) (zero : flags.value = 0)
  | explicit (flags : Word) (two : flags.value = 2) (index : Word)

namespace SegmentOwner

def bytes : SegmentOwner → Bytes
  | first flags _ => flags.bytes
  | explicit flags _ index => flags.bytes ++ index.bytes

def index : SegmentOwner → UInt32
  | first _ _ => 0
  | explicit _ _ index => index.value

def isExplicit : SegmentOwner → Bool
  | first _ _ => false
  | explicit _ _ _ => true

end SegmentOwner

/-- A segment of a table. Its kind of elements is stated if the table is. -/
structure ElementSegment where
  owner : SegmentOwner
  offset : Offset
  functions : Counted Word

namespace ElementSegment

/-- The kind of elements, which are functions. -/
def kindBytes (segment : ElementSegment) : Bytes := if segment.owner.isExplicit then [0] else []

def bytes (segment : ElementSegment) : Bytes :=
  segment.owner.bytes ++ (segment.offset.bytes ++
    (segment.kindBytes ++ segment.functions.bytes Unsigned.bytes))

def event (segment : ElementSegment) (number : Nat) : Event :=
  .elementSegment (.ofNat number) segment.owner.index segment.offset.value.value
    (segment.functions.items.map Unsigned.value)

end ElementSegment

/-- A segment of a memory: its offset, the count of its bytes, and the bytes. -/
structure DataSegment where
  owner : SegmentOwner
  offset : Offset
  size : Word
  data : Bytes
  counted : size.value.toNat = data.length

namespace DataSegment

/-- What stands before the bytes that the segment is about. -/
def headBytes (segment : DataSegment) : Bytes :=
  segment.owner.bytes ++ (segment.offset.bytes ++ segment.size.bytes)

def bytes (segment : DataSegment) : Bytes := segment.headBytes ++ segment.data

def event (segment : DataSegment) (number : Nat) (place : Place) : Event :=
  let start := place.position + segment.headBytes.length
  .dataSegment (.ofNat number) segment.owner.index segment.offset.value.value
    ⟨start, start + segment.data.length⟩

end DataSegment

/-- The entries of a vector section. Signatures and function bodies are not looked into. -/
inductive Entries
  | types (payload : Bytes)
  | imports (items : List Import)
  | functions (items : List Word)
  | tables (items : List Limits)
  | memories (items : List Limits)
  | globals (items : List Global)
  | exports (items : List Export)
  | elements (items : List ElementSegment)
  | code (payload : Bytes)
  | data (items : List DataSegment)

namespace Entries

def id : Entries → SectionId
  | types _ => .types
  | imports _ => .imports
  | functions _ => .functions
  | tables _ => .tables
  | memories _ => .memories
  | globals _ => .globals
  | exports _ => .exports
  | elements _ => .elements
  | code _ => .code
  | data _ => .data

def bytes : Entries → Bytes
  | types payload | code payload => payload
  | imports items => items.flatMap Import.bytes
  | functions items => items.flatMap Unsigned.bytes
  | tables items => items.flatMap Limits.tableBytes
  | memories items => items.flatMap Limits.bytes
  | globals items => items.flatMap Global.bytes
  | exports items => items.flatMap Export.bytes
  | elements items => items.flatMap ElementSegment.bytes
  | data items => items.flatMap DataSegment.bytes

/-- How many entries there are, where they are looked into. -/
def number? : Entries → Option Nat
  | types _ | code _ => none
  | imports items => some items.length
  | functions items => some items.length
  | tables items => some items.length
  | memories items => some items.length
  | globals items => some items.length
  | exports items => some items.length
  | elements items => some items.length
  | data items => some items.length

/-- The events of the entries. What a module defines is numbered behind what it imports. -/
def events (place : Place) : Entries → List Event
  | types _ | code _ => []
  | imports items =>
    rowEvents (fun _ place entry => [entry.event place.imports]) Import.after 0 place items
  | functions items =>
    rowEvents (fun i place type => [.function (.ofNat (place.imports.functions + i)) type.value])
      (Place.behind Unsigned.bytes) 0 place items
  | tables items =>
    rowEvents (fun i place limits => [.table (.ofNat (place.imports.tables + i)) limits.value])
      (Place.behind Limits.tableBytes) 0 place items
  | memories items =>
    rowEvents (fun i place limits => [.memory (.ofNat (place.imports.memories + i)) limits.value])
      (Place.behind Limits.bytes) 0 place items
  | globals items =>
    rowEvents (fun i place entry => [.global (.ofNat (place.imports.globals + i)) entry.type])
      (Place.behind Global.bytes) 0 place items
  | exports items =>
    rowEvents (fun _ _ entry => [entry.event]) (Place.behind Export.bytes) 0 place items
  | elements items =>
    rowEvents (fun i _ segment => [segment.event i]) (Place.behind ElementSegment.bytes) 0 place
      items
  | data items =>
    rowEvents (fun i place segment => [segment.event i place]) (Place.behind DataSegment.bytes) 0
      place items

/-- The counts of imports behind the entries. -/
def countsAfter (counts : ImportCounts) : Entries → ImportCounts
  | imports items => items.foldl (fun counts entry => counts.add entry.imported) counts
  | _ => counts

def after (place : Place) (entries : Entries) : Place :=
  { place with
    position := place.position + entries.bytes.length
    imports := entries.countsAfter place.imports }

end Entries

/-! ## Subsections -/

/-- A subsection: its kind, the size of its contents, and contents of this size. -/
structure Subsection (ν : Type) (kind : ν → UInt8) (bytes : ν → Bytes) where
  size : Word
  contents : ν
  filled : size.value.toNat = (bytes contents).length

def Subsection.bytes {ν : Type} {kind : ν → UInt8} {contents : ν → Bytes}
    (subsection : Subsection ν kind contents) : Bytes :=
  kind subsection.contents :: subsection.size.bytes ++ contents subsection.contents

structure FunctionName where
  index : Word
  name : Name

namespace FunctionName

def bytes (entry : FunctionName) : Bytes := entry.index.bytes ++ entry.name.bytes

def event (entry : FunctionName) : Event := .functionName entry.index.value entry.name.text

end FunctionName

/-- What a subsection of names holds. Only the names of functions are looked into. -/
inductive NameContents
  | functions (names : Counted FunctionName)
  | other (kind : UInt8) (unknown : kind ≠ CustomSection.functionNames) (payload : Bytes)

namespace NameContents

def kind : NameContents → UInt8
  | functions _ => CustomSection.functionNames
  | other kind _ _ => kind

def bytes : NameContents → Bytes
  | functions names => names.bytes FunctionName.bytes
  | other _ _ payload => payload

def events : NameContents → List Event
  | functions names => names.items.map FunctionName.event
  | other _ _ _ => []

end NameContents

/-- What a data segment is called and how it is aligned, as an exponent of two. -/
structure SegmentInfo where
  name : Name
  alignment : Word
  small : alignment.value < 32
  flags : Word

namespace SegmentInfo

def bytes (entry : SegmentInfo) : Bytes :=
  entry.name.bytes ++ (entry.alignment.bytes ++ entry.flags.bytes)

def event (entry : SegmentInfo) (number : Nat) : Event :=
  .segmentInfo (.ofNat number) entry.name.text entry.alignment.value entry.flags.value

end SegmentInfo

/-- A function to be called at start: its symbol. -/
structure Initializer where
  priority : Word
  symbol : Word

namespace Initializer

def bytes (entry : Initializer) : Bytes := entry.priority.bytes ++ entry.symbol.bytes

def event (entry : Initializer) : Event := .initializer entry.priority.value entry.symbol.value

end Initializer

/-- Whether these flags are those of a symbol that the module defines. -/
def isDefined (flags : Word) : Bool := !(SymbolFlags.mk flags.value).contains .undefined

/-- Whether a symbol with these flags that stands for an entity of the module has a name of its
own. -/
def isNamed (flags : Word) : Bool :=
  isDefined flags || (SymbolFlags.mk flags.value).contains .explicitName

/-- A symbol that stands for an entity of the module. -/
structure Reference (flags : Word) where
  index : Word
  name : Optional Name (isNamed flags)

namespace Reference

variable {flags : Word}

def bytes (reference : Reference flags) : Bytes :=
  reference.index.bytes ++ reference.name.bytes Name.bytes

def name? (reference : Reference flags) : Option String := reference.name.node.map Name.text

end Reference

/-- Where a data symbol lies. -/
structure DataDefinition where
  segment : Word
  offset : Word
  size : Word

namespace DataDefinition

def bytes (definition : DataDefinition) : Bytes :=
  definition.segment.bytes ++ (definition.offset.bytes ++ definition.size.bytes)

def value (definition : DataDefinition) : StaticLink.DataDefinition :=
  ⟨definition.segment.value, definition.offset.value, definition.size.value⟩

end DataDefinition

/-- What a symbol with these flags stands for. -/
inductive Meaning (flags : Word)
  | function (reference : Reference flags)
  | data (name : Name) (definition : Optional DataDefinition (isDefined flags))
  | global (reference : Reference flags)
  | wholeSection (position : Word)
  | event (reference : Reference flags)
  | table (reference : Reference flags)

namespace Meaning

variable {flags : Word}

def kind : Meaning flags → SymbolEntry.Kind
  | function _ => .function
  | data _ _ => .data
  | global _ => .global
  | wholeSection _ => .wholeSection
  | event _ => .event
  | table _ => .table

def bytes : Meaning flags → Bytes
  | function reference | global reference | event reference | table reference => reference.bytes
  | data name definition => name.bytes ++ definition.bytes DataDefinition.bytes
  | wholeSection position => position.bytes

def value : Meaning flags → SymbolEntry
  | function reference => .function ⟨flags.value⟩ reference.index.value reference.name?
  | data name definition => .data ⟨flags.value⟩ name.text (definition.node.map DataDefinition.value)
  | global reference => .global ⟨flags.value⟩ reference.index.value reference.name?
  | wholeSection position => .wholeSection ⟨flags.value⟩ position.value
  | event reference => .event ⟨flags.value⟩ reference.index.value reference.name?
  | table reference => .table ⟨flags.value⟩ reference.index.value reference.name?

end Meaning

structure Symbol where
  flags : Word
  meaning : Meaning flags

namespace Symbol

def bytes (entry : Symbol) : Bytes :=
  entry.meaning.kind.toByte :: entry.flags.bytes ++ entry.meaning.bytes

def event (entry : Symbol) (number : Nat) : Event := .symbol (.ofNat number) entry.meaning.value

end Symbol

/-- What a subsection of the linking section holds. Groups of duplicates and kinds that are not
known are not looked into. -/
inductive LinkingContents
  | segmentInfos (entries : Counted SegmentInfo)
  | initializers (entries : Counted Initializer)
  | symbolTable (entries : Counted Symbol)
  | other (kind : UInt8) (payload : Bytes) (unknown : kind ≠ CustomSection.segmentInfos ∧
      kind ≠ CustomSection.initializers ∧ kind ≠ CustomSection.symbolTable)

namespace LinkingContents

def kind : LinkingContents → UInt8
  | segmentInfos _ => CustomSection.segmentInfos
  | initializers _ => CustomSection.initializers
  | symbolTable _ => CustomSection.symbolTable
  | other kind _ _ => kind

def bytes : LinkingContents → Bytes
  | segmentInfos entries => entries.bytes SegmentInfo.bytes
  | initializers entries => entries.bytes Initializer.bytes
  | symbolTable entries => entries.bytes Symbol.bytes
  | other _ payload _ => payload

def events : LinkingContents → List Event
  | segmentInfos entries => entries.items.zipIdx.map fun (entry, i) => entry.event i
  | initializers entries => entries.items.map Initializer.event
  | symbolTable entries => entries.items.zipIdx.map fun (entry, i) => entry.event i
  | other _ _ _ => []

end LinkingContents

/-! ## Custom sections -/

/-- A relocation, with an addend if its kind has one. -/
structure Relocation where
  kind : StaticLink.Relocation.Kind
  offset : Word
  index : Word
  addend : Optional SignedLong kind.hasAddend

namespace Relocation

def bytes (entry : Relocation) : Bytes :=
  entry.kind.toByte :: entry.offset.bytes ++ (entry.index.bytes ++ entry.addend.bytes Signed.bytes)

def value (entry : Relocation) : StaticLink.Relocation where
  kind := entry.kind
  offset := entry.offset.value
  index := entry.index.value
  addend := entry.addend.node.elim 0 SignedLong.value

end Relocation

abbrev NameSubsection := Subsection NameContents NameContents.kind NameContents.bytes

abbrev LinkingSubsection := Subsection LinkingContents LinkingContents.kind LinkingContents.bytes

/-- What stands in a custom section behind its name. -/
inductive CustomContents
  | linking (version : Word) (known : version.value = CustomSection.linkingVersion)
      (subsections : List LinkingSubsection)
  | names (subsections : List NameSubsection)
  | relocations (target : Word) (entries : Counted Relocation)
  | ignored (payload : Bytes)

namespace CustomContents

def kind : CustomContents → CustomSection.Kind
  | linking _ _ _ => .linking
  | names _ => .names
  | relocations _ _ => .relocations
  | ignored _ => .ignored

def bytes : CustomContents → Bytes
  | linking version _ subsections => version.bytes ++ subsections.flatMap Subsection.bytes
  | names subsections => subsections.flatMap Subsection.bytes
  | relocations target entries => target.bytes ++ entries.bytes Relocation.bytes
  | ignored payload => payload

def events : CustomContents → List Event
  | linking _ _ subsections => subsections.flatMap fun subsection => subsection.contents.events
  | names subsections => subsections.flatMap fun subsection => subsection.contents.events
  | relocations target entries =>
    entries.items.map fun entry => .relocation target.value entry.value
  | ignored _ => []

end CustomContents

/-! ## Sections and files -/

/-- What stands in a section. -/
inductive Contents
  | custom (name : Name) (contents : CustomContents)
      (meant : CustomSection.Kind.ofName name.text = contents.kind)
  | start (function : Word)
  | dataCount (count : Word)
  | vector (count : Word) (entries : Entries)
      (counted : ∀ number ∈ entries.number?, count.value.toNat = number)

namespace Contents

def id : Contents → SectionId
  | custom _ _ _ => .custom
  | start _ => .start
  | dataCount _ => .dataCount
  | vector _ entries _ => entries.id

/-- What stands before the payload: a name, a count, or nothing. -/
def headBytes : Contents → Bytes
  | custom name _ _ => name.bytes
  | vector count _ _ => count.bytes
  | start _ | dataCount _ => []

def payload : Contents → Bytes
  | custom _ contents _ => contents.bytes
  | start function => function.bytes
  | dataCount count => count.bytes
  | vector _ entries _ => entries.bytes

def bytes (contents : Contents) : Bytes := contents.headBytes ++ contents.payload

def name? : Contents → Option String
  | custom name _ _ => some name.text
  | _ => none

def count? : Contents → Option UInt32
  | vector count _ _ => some count.value
  | _ => none

/-- The opening of a section whose contents stand at this place. -/
def opening (contents : Contents) (number : Nat) (place : Place) : SectionHeader :=
  let stop := place.position + contents.bytes.length
  { index := .ofNat number
    id := contents.id
    name := contents.name?
    range := ⟨place.position, stop⟩
    payload := ⟨place.position + contents.headBytes.length, stop⟩
    count := contents.count? }

/-- The events of a payload at this place. -/
def payloadEvents (place : Place) : Contents → List Event
  | custom _ contents _ => contents.events
  | start function => [.start function.value]
  | dataCount _ => []
  | vector _ entries _ => entries.events place

def countsAfter (counts : ImportCounts) : Contents → ImportCounts
  | vector _ entries _ => entries.countsAfter counts
  | _ => counts

/-- The events of contents at this place, in the section of this number. -/
def events (number : Nat) (place : Place) (contents : Contents) : List Event :=
  .opening (contents.opening number place) ::
    contents.payloadEvents (place.past contents.headBytes.length)

def after (place : Place) (contents : Contents) : Place :=
  { place with
    position := place.position + contents.bytes.length
    imports := contents.countsAfter place.imports }

end Contents

/-- A section: its identifier, the size of its contents, and contents of this size. -/
structure Section where
  size : Word
  contents : Contents
  filled : size.value.toNat = contents.bytes.length

namespace Section

def headBytes (node : Section) : Bytes :=
  node.contents.id.toByte :: node.size.bytes

def bytes (node : Section) : Bytes := node.headBytes ++ node.contents.bytes

/-- The place of the contents, which stand behind the head and count as behind the section. -/
def inside (place : Place) (node : Section) : Place :=
  { place.past node.headBytes.length with sections := place.sections + 1 }

def events (place : Place) (node : Section) : List Event :=
  node.contents.events place.sections (inside place node)

def after (place : Place) (node : Section) : Place :=
  node.contents.after (inside place node)

end Section

/-- A file: the magic bytes and the version, then sections. -/
structure Module where
  sections : List Section

namespace Module

def bytes (module : Module) : Bytes := Header.encode ++ module.sections.flatMap Section.bytes

/-- The place of the first section. -/
def start : Place := ⟨Header.encode.length, 0, ⟨0, 0, 0, 0⟩⟩

def events (module : Module) : List Event :=
  rowEvents (fun _ => Section.events) Section.after 0 start module.sections

end Module

end StaticLink.Grammar
