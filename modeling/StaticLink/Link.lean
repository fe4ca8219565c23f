import StaticLink.Program.Encoding

/-!
# Linking

* `Session.link`: the module that the inputs of a session make together.
* `link`: the same for a list of inputs, of which none may be refused.
-/

namespace StaticLink

/-- The module that the inputs added so far make together. -/
def Session.link (session : Session) (options : Options) : Except Error Bytes := do
  let program ← Program.ofSession session options.globalBase.toNat
  program.encode (← program.interface options)

/-- The session of these inputs, given as names and contents. -/
def Session.addAll (inputs : List (String × Bytes)) : EStateM Error Session Unit :=
  inputs.forM fun (name, bytes) => discard (Session.add name bytes)

/-- The module that `inputs`, given as names and contents, make together. -/
def link (inputs : List (String × Bytes)) (options : Options) : Except Error Bytes :=
  match Session.addAll inputs .empty with
  | .ok _ session => session.link options
  | .error error _ => .error error

end StaticLink
