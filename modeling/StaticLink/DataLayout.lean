import StaticLink.Alignment
import StaticLink.ObjectModule

/-!
# The layout of static data

Data segments of the inputs are merged into output segments by name, so that every `.rodata` piece
of every input ends up in one place. The output segments are packed from a base address on, in
descending order of their names, and the stack follows them.

* `DataSegment.outputName`: the output segment that an input segment belongs to.
* `OutputSegment.push`: an input segment is put behind those that are already there, aligned.
* `DataLayout.ofModules`: the whole layout; `DataLayout.address?`: where an input segment lies.
* `stackTop`, `stackPages`: the stack and the size of the memory.
-/

namespace StaticLink

/-- The value, or the error of a layout that does not fit below the address limit. -/
def fitting {α : Type} (value : Option α) : Except Error α :=
  match value with
  | some value => .ok value
  | none => .error (.unsupported .addressSpaceExhausted)

@[simp] theorem fitting_eq_ok {α : Type} {value : Option α} {found : α} :
    fitting value = .ok found ↔ value = some found := by
  cases value <;> simp [fitting]

namespace DataSegment

/-- The names of the output segments that gather all input segments called after them. -/
def families : List String := [".text", ".data", ".bss", ".rodata"]

/-- The output segment for input segments called `name`. All thread-local data goes together;
a name of a family loses what follows the family's name; any other name stays as it is. -/
def outputName (name : String) : String :=
  if name.startsWith ".tdata" || name.startsWith ".tbss" then ".tdata"
  else (families.find? fun family => name.startsWith (family ++ ".")).getD name

end DataSegment

/-- An input segment in its place within an output segment. -/
structure Chunk where
  owner : ModuleId
  /-- Position of the segment in its module. -/
  segment : Nat
  /-- Distance from the start of the output segment. -/
  offset : Nat
deriving DecidableEq, Repr

/-- A segment of the linked module. -/
structure OutputSegment where
  name : String
  /-- The largest alignment of a chunk, as an exponent of two. -/
  alignment : Nat := 0
  address : Nat := 0
  size : Nat := 0
  chunks : Array Chunk := #[]
deriving DecidableEq, Repr

namespace OutputSegment

/-- The address after the last byte. -/
def stop (segment : OutputSegment) : Nat := segment.address + segment.size

/-- Puts data segment `position` of module `owner` behind the chunks that are there. -/
def push (segment : OutputSegment) (owner : ModuleId) (position : Nat) (input : DataSegment) :
    Except Error OutputSegment := do
  let alignment := input.info.alignment.toNat
  let offset ← fitting (alignUp? segment.size (powerOfTwo alignment))
  let size ← fitting (address? (offset + input.size))
  return { segment with
    size
    chunks := segment.chunks.push { owner, segment := position, offset }
    alignment := max segment.alignment alignment }

/-- Puts a data segment into the output segment where it belongs, which comes last if it is new. -/
def insert (owner : ModuleId) (position : Nat) (input : DataSegment) :
    List OutputSegment → Except Error (List OutputSegment)
  | [] => do
    let segment : OutputSegment := { name := DataSegment.outputName input.info.name }
    return [← segment.push owner position input]
  | segment :: rest => do
    if segment.name = DataSegment.outputName input.info.name then
      return (← segment.push owner position input) :: rest
    else
      return segment :: (← insert owner position input rest)

/-- Gives the segments their addresses: each comes right after the one before it, aligned, and the
first comes after `base`. Also gives the address after the last one. -/
def pack (base : Nat) : List OutputSegment → Except Error (List OutputSegment × Nat)
  | [] => return ([], base)
  | segment :: rest => do
    let address ← fitting (alignUp? base (powerOfTwo segment.alignment))
    let stop ← fitting (address? (address + segment.size))
    let (rest, stop) ← pack stop rest
    return ({ segment with address } :: rest, stop)

end OutputSegment

namespace ObjectModule

/-- The first relocation of the data section that does not start within a data segment: its offset
and its position. -/
def strayRelocation? (module : ObjectModule) : Option (UInt32 × Nat) := do
  let found ← module.section? .data
  found.relocations.toList.findSome? fun relocation =>
    let position := found.header.range.start + relocation.offset.toNat
    if module.dataSegments.any fun segment => decide (position ∈ segment.data) then none
    else some (relocation.offset, position)

/-- Checks that every relocation of the data section starts within some data segment. -/
def checkDataRelocations (module : ObjectModule) : Except Error Unit :=
  match module.strayRelocation? with
  | some (offset, position) => .error (.malformed ⟨.relocationOutOfBounds offset, position⟩)
  | none => .ok ()

end ObjectModule

/-- Where static data lies in the memory of the linked module. -/
structure DataLayout where
  segments : List OutputSegment
  /-- The address after the last byte of static data. -/
  stop : Nat
deriving DecidableEq, Repr

namespace DataLayout

/-- Adds the data segments of module `owner` to the output segments. -/
def insertModule (segments : List OutputSegment) (module : ObjectModule) (owner : ModuleId) :
    Except Error (List OutputSegment) := do
  module.checkDataRelocations
  module.dataSegments.toList.zipIdx.foldlM
    (fun segments (input, position) => OutputSegment.insert owner position input segments) segments

/-- The output segments without their addresses, in the order in which they were first needed. -/
def merge (modules : List ObjectModule) : Except Error (List OutputSegment) :=
  modules.zipIdx.foldlM (fun segments (module, owner) => insertModule segments module owner) []

/-- The layout of the data of `modules` from address `base` on. -/
def ofModules (modules : List ObjectModule) (base : Nat) : Except Error DataLayout := do
  let merged ← merge modules
  let (segments, stop) ← OutputSegment.pack base
    (merged.mergeSort fun first second => decide (second.name ≤ first.name))
  return { segments, stop }

/-- The address of data segment `segment` of module `owner`. -/
def address? (layout : DataLayout) (owner : ModuleId) (segment : Nat) : Option Nat :=
  layout.segments.findSome? fun output =>
    (output.chunks.find? fun chunk => chunk.owner == owner && chunk.segment == segment).map
      fun chunk => output.address + chunk.offset

end DataLayout

/-! ## The stack -/

/-- Bytes of a page of memory. -/
def pageSize : Nat := 65536

/-- Bytes that are kept for the stack. -/
def stackSize : Nat := pageSize

/-- The address after the stack, which starts at the first page after static data. The stack grows
downwards from there. -/
def stackTop (dataStop : Nat) : Except Error Nat := do
  let base ← fitting (alignUp? dataStop pageSize)
  fitting (address? (base + stackSize))

/-- Pages of a memory that ends with the stack. -/
def stackPages (stackTop : Nat) : Nat := stackTop / pageSize

end StaticLink
