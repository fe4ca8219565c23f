import StaticLink.Bytes
import StaticLink.Entity
import StaticLink.Error
import StaticLink.Relocation
import StaticLink.SectionId
import StaticLink.Symbol.Entry

/-!
# Events

* `Event`: one structure of a module, as it is met on the way through the file. Indices of
  functions, tables, memories and globals are those of the module, where imports come first.
* `Transcript`: all events of a file in order, and the fault that ends them early, if there is one.
-/

namespace StaticLink

/-- The opening of a section. -/
structure SectionHeader where
  /-- Position of the section in the module, custom sections included. -/
  index : UInt32
  id : SectionId
  /-- The name of a custom section. -/
  name : Option String
  /-- The contents of the section. -/
  range : Span
  /-- The contents after the count of entries, or after the name of a custom section. -/
  payload : Span
  /-- The count of entries of a vector section. -/
  count : Option UInt32
deriving DecidableEq, Repr

/-- One structure of a module. -/
inductive Event
  | opening (header : SectionHeader)
  | functionImport (module field : String) (index typeIndex : UInt32)
  | tableImport (module field : String) (index : UInt32) (limits : Limits)
  | memoryImport (module field : String) (index : UInt32) (limits : Limits)
  | globalImport (module field : String) (index : UInt32) (type : GlobalType)
  | function (index typeIndex : UInt32)
  | table (index : UInt32) (limits : Limits)
  | memory (index : UInt32) (limits : Limits)
  | global (index : UInt32) (type : GlobalType)
  | exported (name : String) (kind : ExternalKind) (index : UInt32)
  | start (function : UInt32)
  | elementSegment (index table : UInt32) (offset : Int32) (functions : List UInt32)
  | dataSegment (index memory : UInt32) (offset : Int32) (data : Span)
  | functionName (index : UInt32) (name : String)
  | segmentInfo (index : UInt32) (name : String) (alignment flags : UInt32)
  | initializer (priority symbol : UInt32)
  | symbol (index : UInt32) (entry : SymbolEntry)
  | relocation (target : UInt32) (relocation : Relocation)
deriving DecidableEq, Repr

/-- What a file holds: its structures in order, up to the first fault. -/
structure Transcript where
  events : List Event
  fault : Option Fault
deriving DecidableEq, Repr

namespace Transcript

/-- Performs `step` on each event in order, then fails if the file is faulty. The first failure
ends it. -/
def forEach {σ : Type} (transcript : Transcript) (step : Event → EStateM Error σ Unit) :
    EStateM Error σ Unit := do
  transcript.events.forM step
  match transcript.fault with
  | some fault => throw (.malformed fault)
  | none => return

end Transcript

end StaticLink
