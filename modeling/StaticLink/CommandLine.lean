import StaticLink.Session

/-!
# Command lines

* `CommandLine`: what a command line asks for: inputs, an output and options.
* `CommandLine.ofArguments`: reads it. Inputs are linked in the order in which they are given.
* `CommandLine.Problem.message`, `Error.report`: what is said when something is wrong.
-/

namespace StaticLink

/-- What a command line asks for. -/
structure CommandLine where
  /-- The object files to be linked. -/
  inputs : List String
  /-- The file for the linked module. -/
  output : String
  options : Options
deriving DecidableEq, Repr

namespace CommandLine

/-- Why a command line is refused. -/
inductive Problem
  | unknownOption (option : String)
  | missingValue (option : String)
  /-- The value is not a decimal number below `wordLimit`. -/
  | invalidAddress (value : String)
  | noInput
  | noOutput
deriving DecidableEq, Repr

def Problem.message : Problem → String
  | unknownOption option => s!"unknown option `{option}`"
  | missingValue option => s!"option `{option}` needs a value"
  | invalidAddress value => s!"`{value}` is not an address"
  | noInput => "no input is given"
  | noOutput => "no output is given"

/-- How far a command line has been read. -/
structure Reading where
  inputs : List String := []
  output : Option String := none
  options : Options := {}
deriving DecidableEq, Repr

namespace Reading

/-- The address that decimal digits stand for. -/
def address (value : String) : Except Problem UInt32 :=
  let digits := value.toList
  let number := digits.foldl (fun number digit => number * 10 + (digit.toNat - '0'.toNat)) 0
  if digits ≠ [] ∧ digits.all Char.isDigit ∧ number < wordLimit then .ok (UInt32.ofNat number)
  else .error (.invalidAddress value)

/-- Asks for the function `name` to be exported. -/
def requestExport (reading : Reading) (name : String) : Reading :=
  { reading with
    options := { reading.options with exports := reading.options.exports ++ [name] } }

/-- Sets the address where static data begins. -/
def setGlobalBase (reading : Reading) (globalBase : UInt32) : Reading :=
  { reading with options := { reading.options with globalBase } }

/-- Reads an option that takes a value. -/
def valueOption (reading : Reading) (option value : String) : Except Problem Reading := do
  match option with
  | "-o" | "--output" => return { reading with output := some value }
  | "-e" | "--export" => return reading.requestExport value
  | "--global-base" => return reading.setGlobalBase (← address value)
  | _ => throw (.unknownOption option)

/-- The options that take a value. -/
def valueOptions : List String := ["-o", "--output", "-e", "--export", "--global-base"]

/-- Reads an argument that stands alone: a switch or an input. Linked modules are not validated, so
`--skip-validation` changes nothing. -/
def loneArgument (reading : Reading) (argument : String) : Except Problem Reading :=
  match argument with
  | "--emit-start" => .ok { reading with options := { reading.options with emitStart := true } }
  | "--debug-names" => .ok { reading with options := { reading.options with debugNames := true } }
  | "--skip-validation" => .ok reading
  | _ =>
    if argument.startsWith "-" then .error (.unknownOption argument)
    else .ok { reading with inputs := reading.inputs ++ [argument] }

/-- Reads the rest of a command line. -/
def readAll (reading : Reading) : (arguments : List String) → Except Problem Reading
  | [] => .ok reading
  | [argument] =>
    if argument ∈ valueOptions then .error (.missingValue argument)
    else reading.loneArgument argument
  | argument :: next :: rest => do
    if argument ∈ valueOptions then
      readAll (← reading.valueOption argument next) rest
    else
      readAll (← reading.loneArgument argument) (next :: rest)

end Reading

/-- What `arguments` ask for. An input and the output must be given. -/
def ofArguments (arguments : List String) : Except Problem CommandLine := do
  let reading ← Reading.readAll {} arguments
  if reading.inputs.isEmpty then
    throw .noInput
  match reading.output with
  | some output => return { inputs := reading.inputs, output, options := reading.options }
  | none => throw .noOutput

end CommandLine

/-- The error in words, with the cause of a refused input. -/
def Error.report : Error → String
  | .input name cause => (Error.input name cause).message ++ "\n\nCaused by:\n    " ++ cause.message
  | error => error.message

end StaticLink
