import StaticLink.CommandLine
import StaticLink.Link

/-!
# The program

Reads the object files that the command line names, links them and writes the linked module.
-/

namespace StaticLink

/-- Says what is wrong. The result is the exit code `code`. -/
def complain (code : UInt32) (text : String) : IO UInt32 := do
  IO.eprintln ("Error: " ++ text)
  return code

/-- Reads and adds inputs to a session. -/
def addFiles : (paths : List String) → Session → IO (Except String Session)
  | [], session => return .ok session
  | path :: rest, session => do
    match ← (IO.FS.readBinFile path).toBaseIO with
    | .error _ => return .error s!"failed to read `{path}`"
    | .ok contents =>
      match Session.add path contents.data.toList session with
      | .ok _ session => addFiles rest session
      | .error error _ => return .error error.report

end StaticLink

open StaticLink in
/-- Links as the command line asks. The exit code is 0 if the linked module is written, 2 if the
command line is refused and 1 if anything else is wrong. -/
def main (arguments : List String) : IO UInt32 := do
  match CommandLine.ofArguments arguments with
  | .error problem => complain 2 problem.message
  | .ok request =>
    match ← addFiles request.inputs .empty with
    | .error text => complain 1 text
    | .ok session =>
      match session.link request.options with
      | .error error => complain 1 error.report
      | .ok bytes =>
        match ← (IO.FS.writeBinFile request.output ⟨bytes.toArray⟩).toBaseIO with
        | .error _ => complain 1 s!"failed to write `{request.output}`"
        | .ok _ => return 0
