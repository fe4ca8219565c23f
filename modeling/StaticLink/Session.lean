import StaticLink.ObjectModule.Loading

/-!
# Sessions

A session holds the inputs that have been added so far. Inputs are added one after the other, and
the first of several weak definitions of a name is the one that counts.

* `Options`: what a link may be asked for.
* `Session.add`: reads an object file and registers its symbols.
-/

namespace StaticLink

/-- What a link may be asked for. -/
structure Options where
  /-- Names of functions to be exported. -/
  exports : List String := []
  /-- The address where static data begins. -/
  globalBase : UInt32 := 1024
  /-- Whether the entry point is run on instantiation. -/
  emitStart : Bool := false
  /-- Whether the names of functions are written out for debuggers. -/
  debugNames : Bool := false
deriving DecidableEq, Repr

/-- The inputs of a link and the symbols that they share. -/
structure Session where
  modules : List ObjectModule := []
  symbols : SymbolTable := .empty
deriving DecidableEq, Repr

namespace Session

def empty : Session := {}

/-- Reads the object file `bytes`, which messages call `name`.

An input that is refused is not added, but the symbols that it had registered by then remain. -/
def add (name : String) (bytes : Bytes) : EStateM Error Session ModuleId := fun session =>
  let owner := session.modules.length
  match ObjectModule.load owner name bytes session.symbols with
  | .ok module symbols => .ok owner { modules := session.modules ++ [module], symbols }
  | .error cause symbols => .error (.input name cause) { session with symbols }

end Session

end StaticLink
