import StaticLink.Cursor.Structures
import StaticLink.CustomSection
import StaticLink.Event

/-!
# Scanning a module

`Transcript.ofBytes` goes through a file once, front to back, and notes every structure as an
`Event`. Sections and subsections that have no meaning here are passed over by their stated size.

* `Scanner`: a step of the scan. Its state, a `Scan`, holds the cursor, the counts of what was
  imported so far, and the events. A fault leaves the events that came before it.
* `Scanner.vectorEntries`, `Scanner.customEntries`: the contents of each kind of section.
* `Scanner.oneSection`, `Scanner.sectionsUpTo`: the frame around them.
-/

namespace StaticLink

/-- How far a scan has come. -/
structure Scan where
  cursor : Cursor
  /-- Sections met so far. -/
  sections : UInt32 := 0
  functionImports : UInt32 := 0
  tableImports : UInt32 := 0
  memoryImports : UInt32 := 0
  globalImports : UInt32 := 0
  events : Array Event := #[]
deriving DecidableEq, Repr

/-- A step of a scan. -/
abbrev Scanner := EStateM Fault Scan

namespace Scanner

/-- Reads at the cursor of the scan. -/
def read {α : Type} (reader : Reader α) : Scanner α := fun scan =>
  match reader scan.cursor with
  | .ok value cursor => .ok value { scan with cursor }
  | .error fault cursor => .error fault { scan with cursor }

instance : MonadLift Reader Scanner := ⟨read⟩

/-- Notes an event. -/
def emit (event : Event) : Scanner Unit :=
  modify fun scan => { scan with events := scan.events.push event }

/-- Performs `step first`, `step (first + 1)` and so on, `count` times. -/
def timesFrom (step : UInt32 → Scanner Unit) : (count : Nat) → (first : UInt32) → Scanner Unit
  | 0, _ => return
  | count + 1, first => do
    step first
    timesFrom step count (first + 1)

/-- Performs `step 0`, `step 1` and so on, `count` times. -/
def times (count : UInt32) (step : UInt32 → Scanner Unit) : Scanner Unit :=
  timesFrom step count.toNat 0

/-! ## Entries of vector sections -/

/-- An import. The index that it gets is the count of the imports of its kind before it. -/
def importEntry : Scanner Unit := do
  let module ← Reader.text
  let field ← Reader.text
  let start ← Reader.position
  match ← Reader.code ExternalKind.ofByte with
  | .function =>
    let typeIndex ← Reader.varUInt32
    let index := (← get).functionImports
    modify fun scan => { scan with functionImports := index + 1 }
    emit (.functionImport module field index typeIndex)
  | .table =>
    let limits ← Reader.tableType
    let index := (← get).tableImports
    modify fun scan => { scan with tableImports := index + 1 }
    emit (.tableImport module field index limits)
  | .memory =>
    let limits ← Reader.limits
    let index := (← get).memoryImports
    modify fun scan => { scan with memoryImports := index + 1 }
    emit (.memoryImport module field index limits)
  | .global =>
    let type ← Reader.globalType
    let index := (← get).globalImports
    modify fun scan => { scan with globalImports := index + 1 }
    emit (.globalImport module field index type)
  | .tag => Reader.failAt start (.unsupportedImportKind ExternalKind.tag.toByte)

def exportEntry : Scanner Unit := do
  let name ← Reader.text
  let kind ← Reader.code ExternalKind.ofByte
  let index ← Reader.varUInt32
  emit (.exported name kind index)

/-- The flags of a segment and its table or memory: flags 0 mean the first one, flags 2 an explicit
one. Says also whether it was explicit. -/
def segmentOwner : Reader (UInt32 × Bool) := do
  let start ← Reader.position
  match ← Reader.varUInt32 with
  | 0 => return (0, false)
  | 2 => return (← Reader.varUInt32, true)
  | flags => Reader.failAt start (.unsupportedSegmentFlags flags)

/-- Reads `count` indices, which come before those in `later`, in reverse order. -/
def indicesOnto : (count : Nat) → (later : List UInt32) → Reader (List UInt32)
  | 0, later => return later.reverse
  | count + 1, later => do indicesOnto count ((← Reader.varUInt32) :: later)

/-- A count, then as many indices. -/
def indices : Reader (List UInt32) := do
  indicesOnto (← Reader.varUInt32).toNat []

/-- An element segment. With an explicit table it also states its kind of elements. -/
def elementSegment (index : UInt32) : Scanner Unit := do
  let (table, explicit) ← segmentOwner
  let offset ← Reader.constantI32
  if explicit then
    Reader.code fun
      | 0 => .ok ()
      | b => .error (.invalidElementType b)
  emit (.elementSegment index table offset (← indices))

def dataSegment (index : UInt32) : Scanner Unit := do
  let (memory, _) ← segmentOwner
  let offset ← Reader.constantI32
  let size ← Reader.varUInt32
  emit (.dataSegment index memory offset (← Reader.span size.toNat))

/-- The contents of a vector section after its count. Signatures and function bodies are not looked
into. -/
def vectorEntries (id : SectionId) (count : UInt32) (stop : Nat) : Scanner Unit :=
  match id with
  | .types | .code => Reader.advanceTo stop
  | .imports => times count fun _ => importEntry
  | .functions => times count fun i => do
    let typeIndex ← Reader.varUInt32
    emit (.function ((← get).functionImports + i) typeIndex)
  | .tables => times count fun i => do
    let limits ← Reader.tableType
    emit (.table ((← get).tableImports + i) limits)
  | .memories => times count fun i => do
    let limits ← Reader.limits
    emit (.memory ((← get).memoryImports + i) limits)
  | .globals => times count fun i => do
    let type ← Reader.globalType
    Reader.skipConstant
    emit (.global ((← get).globalImports + i) type)
  | .exports => times count fun _ => exportEntry
  | .elements => times count elementSegment
  | .data => times count dataSegment
  | .custom | .start | .dataCount => return

/-! ## Entries of custom sections -/

/-- The kind of a subsection and where it stops, which must not be after its section's `stop`. -/
def subsectionHeader (stop : Nat) : Reader (UInt8 × Nat) := do
  let kind ← Reader.byte
  let size ← Reader.varUInt32
  let start ← Reader.position
  let subsectionStop := start + size.toNat
  if subsectionStop > stop then Reader.failAt start (.sizeMismatch stop subsectionStop)
  return (kind, subsectionStop)

/-- Performs `entries` on the subsections from the cursor to `stop`. No more than `limit` of them
are read; as each takes a byte or more, the distance to `stop` is limit enough. -/
def subsectionsUpTo (stop : Nat) (entries : UInt8 → (stop : Nat) → Scanner Unit) :
    (limit : Nat) → Scanner Unit
  | 0 => return
  | limit + 1 => do
    if (← Reader.position) < stop then
      let (kind, subsectionStop) ← subsectionHeader stop
      entries kind subsectionStop
      Reader.expectAt subsectionStop
      subsectionsUpTo stop entries limit

/-- Performs `entries` on each subsection from the cursor to `stop`. -/
def subsections (stop : Nat) (entries : UInt8 → (stop : Nat) → Scanner Unit) : Scanner Unit := do
  subsectionsUpTo stop entries (stop - (← Reader.position))

/-- The names of functions. Subsections with other names are passed over. -/
def nameEntries (kind : UInt8) (stop : Nat) : Scanner Unit := do
  match kind with
  | CustomSection.functionNames => times (← Reader.varUInt32) fun _ => do
    let index ← Reader.varUInt32
    let name ← Reader.text
    emit (.functionName index name)
  | _ => Reader.advanceTo stop

/-- What a segment is called and how it is aligned, as an exponent of two below 32. -/
def segmentInfo (index : UInt32) : Scanner Unit := do
  let name ← Reader.text
  let start ← Reader.position
  let alignment ← Reader.varUInt32
  if alignment ≥ 32 then Reader.failAt start (.invalidAlignment alignment)
  let flags ← Reader.varUInt32
  emit (.segmentInfo index name alignment flags)

/-- An entry of the symbol table. An undefined symbol is named after its import unless its flags
say that it has a name of its own. -/
def symbolEntry : Reader SymbolEntry := do
  let kind ← Reader.code SymbolEntry.Kind.ofByte
  let flags : SymbolFlags := ⟨← Reader.varUInt32⟩
  let isDefined := !flags.contains .undefined
  let indexAndName : Reader (UInt32 × Option String) := do
    let index ← Reader.varUInt32
    let name ← if isDefined || flags.contains .explicitName then some <$> Reader.text else pure none
    return (index, name)
  match kind with
  | .function => let (index, name) ← indexAndName; return .function flags index name
  | .global => let (index, name) ← indexAndName; return .global flags index name
  | .event => let (index, name) ← indexAndName; return .event flags index name
  | .table => let (index, name) ← indexAndName; return .table flags index name
  | .data =>
    let name ← Reader.text
    if isDefined then
      let segment ← Reader.varUInt32
      let offset ← Reader.varUInt32
      let size ← Reader.varUInt32
      return .data flags name (some { segment, offset, size })
    else
      return .data flags name none
  | .wholeSection => return .wholeSection flags (← Reader.varUInt32)

/-- Segment names, initializers and symbols. Other subsections are passed over. -/
def linkingEntries (kind : UInt8) (stop : Nat) : Scanner Unit := do
  match kind with
  | CustomSection.segmentInfos => times (← Reader.varUInt32) segmentInfo
  | CustomSection.initializers => times (← Reader.varUInt32) fun _ => do
    let priority ← Reader.varUInt32
    let symbol ← Reader.varUInt32
    emit (.initializer priority symbol)
  | CustomSection.symbolTable => times (← Reader.varUInt32) fun index => do
    let entry ← symbolEntry
    emit (.symbol index entry)
  | _ => Reader.advanceTo stop

/-- A version, then subsections. -/
def linkingSection (stop : Nat) : Scanner Unit := do
  let start ← Reader.position
  let version ← Reader.varUInt32
  if version ≠ CustomSection.linkingVersion then
    Reader.failAt start (.unsupportedLinkingVersion version)
  subsections stop linkingEntries

def relocationEntry : Reader Relocation := do
  let kind ← Reader.code Relocation.Kind.ofByte
  let offset ← Reader.varUInt32
  let index ← Reader.varUInt32
  let addend ← if kind.hasAddend then Reader.varInt64 else pure 0
  return { kind, offset, index, addend }

/-- The section that the relocations are about, by its position, and the relocations. -/
def relocationSection : Scanner Unit := do
  let target ← Reader.varUInt32
  times (← Reader.varUInt32) fun _ => do
    let relocation ← relocationEntry
    emit (.relocation target relocation)

/-- The contents of the custom section called `name`. -/
def customEntries (name : String) (stop : Nat) : Scanner Unit :=
  match CustomSection.Kind.ofName name with
  | .linking => linkingSection stop
  | .names => subsections stop nameEntries
  | .relocations => relocationSection
  | .ignored => Reader.advanceTo stop

/-! ## Sections -/

/-- The contents of a section whose size is already known to be there. -/
def sectionContents (index : UInt32) (id : SectionId) (range : Span) : Scanner Unit := do
  match id with
  | .custom =>
    let name ← Reader.text
    let payload : Span := ⟨← Reader.position, range.stop⟩
    emit (.opening { index, id, name := some name, range, payload, count := none })
    customEntries name range.stop
  | .start =>
    emit (.opening { index, id, name := none, range, payload := range, count := none })
    let function ← Reader.varUInt32
    emit (.start function)
  | .dataCount =>
    emit (.opening { index, id, name := none, range, payload := range, count := none })
    discard Reader.varUInt32
  | _ =>
    let count ← Reader.varUInt32
    let payload : Span := ⟨← Reader.position, range.stop⟩
    emit (.opening { index, id, name := none, range, payload, count := some count })
    vectorEntries id count range.stop

/-- A section: its id, the size of its contents, and contents of exactly that size. -/
def oneSection : Scanner Unit := do
  let id ← Reader.code SectionId.ofByte
  let size ← Reader.varUInt32
  let range ← Reader.spanAhead size.toNat
  let index := (← get).sections
  modify fun scan => { scan with sections := index + 1 }
  sectionContents index id range
  Reader.expectAt range.stop

/-- The sections up to the end of the file, but no more than `limit` of them. -/
def sectionsUpTo : (limit : Nat) → Scanner Unit
  | 0 => return
  | limit + 1 => do
    unless (← get).cursor.atEnd do
      oneSection
      sectionsUpTo limit

/-- A whole module. Each section takes a byte or more, so the bytes that are left are limit enough
for the sections. -/
def module : Scanner Unit := do
  Reader.header
  sectionsUpTo (← get).cursor.rest.length

end Scanner

namespace Transcript

/-- What the file `bytes` holds. -/
def ofBytes (bytes : Bytes) : Transcript :=
  match Scanner.module { cursor := .ofBytes bytes } with
  | .ok _ scan => { events := scan.events.toList, fault := none }
  | .error fault scan => { events := scan.events.toList, fault := some fault }

end Transcript

end StaticLink
