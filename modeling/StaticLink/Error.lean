import StaticLink.PowerOfTwo
import StaticLink.Relocation
import StaticLink.Symbol

/-!
# Errors

Everything that can go wrong in a link, by cause. The wording is in `Error.message`.

References between the parts of a link that has been read in are followed with `existing`. They
all lead somewhere, so that `Error.dangling` is not for a user to see.

Numbers that linking adds up go through `inWord`. Where one has no word, the link does not go on:
`Error.overflow` is no report about the input but the end of the run.
-/

namespace StaticLink

/-- What a well-formed input may ask for and the linker does not do. -/
inductive Limitation
  /-- Static data and the stack do not fit below `wordLimit`. -/
  | addressSpaceExhausted
  | eventSymbol (index : UInt32) (module : String)
  | initializerNotFunction (symbol : UInt32) (module : String)
  | slotOutsideElements (slot : Nat) (module : String)
  | notOfKind (symbol : String) (kind : Target.Kind)
  | sectionTooLarge
  /-- Anything else, in the caller's own words. -/
  | other (text : String)
deriving DecidableEq, Repr

namespace Limitation

/-- The limitation in words. -/
def message : Limitation → String
  | addressSpaceExhausted => "static data exceeds the 32-bit address space"
  | eventSymbol index module => s!"event symbol {index} in `{module}`"
  | initializerNotFunction symbol module =>
    s!"init function {symbol} of `{module}` is not a function symbol"
  | slotOutsideElements slot module =>
    s!"table slot {slot} of `{module}` is outside every element segment"
  | notOfKind symbol .function => s!"`{symbol}` is not a function"
  | notOfKind symbol .global => s!"`{symbol}` is not a global"
  | notOfKind symbol .data => s!"`{symbol}` is not a data symbol"
  | sectionTooLarge => "section larger than 4 GiB"
  | other text => text

end Limitation

/-- Why an input is refused or a link fails. -/
inductive Error
  /-- The input is not a well-formed object file. -/
  | malformed (fault : Fault)
  /-- The input called `name` was refused because of `cause`. -/
  | input (name : String) (cause : Error)
  /-- Two strong definitions of one name. -/
  | symbolConflict (name existing new : String)
  /-- One name for things of different kinds. -/
  | kindMismatch (name existing : String) (existingKind : Target.Kind) (new : String)
      (newKind : Target.Kind)
  /-- A strong reference that nothing satisfies. -/
  | undefinedSymbol (name : String)
  /-- A requested export that is not a function with a body of its own. -/
  | exportNotFound (name : String)
  /-- A relocation that the linker cannot apply. -/
  | unhandledRelocation (kind : Relocation.Kind)
  /-- A weak undefined function that has no stub. -/
  | unresolvedWeakFunction (name : String)
  /-- A relocation against a symbol of the wrong kind. -/
  | invalidRelocation (kind : Relocation.Kind) (offset : UInt32) (symbol : String)
  | unsupported (limitation : Limitation)
  /-- A reference to an input, an import or a symbol that does not exist. -/
  | dangling
  /-- An index or a count that does not fit in a word of 32 bits. -/
  | overflow
deriving DecidableEq, Repr

namespace Error

/-- The error in words. -/
def message : Error → String
  | malformed fault => fault.message
  | input name _ => s!"failed to read input `{name}`"
  | symbolConflict name existing new =>
    s!"Symbol conflict: {name}\n>>> defined in {existing}\n>>> defined in {new}"
  | kindMismatch name existing existingKind new newKind =>
    s!"Symbol type mismatch: {name}\n>>> defined as {existingKind.word} in {existing}\n" ++
      s!">>> defined as {newKind.word} in {new}"
  | undefinedSymbol name => s!"Undefined symbol: {name}"
  | exportNotFound name => s!"Export function '{name}' not found"
  | unhandledRelocation kind => s!"Unhandled relocation type: {kind.name}"
  | unresolvedWeakFunction name =>
    s!"unreachable: weak undef symbol `{name}` should be replaced with synthesized stub function"
  | invalidRelocation kind offset symbol =>
    s!"relocation {kind.name} at offset 0x" ++ hexadecimal offset.toNat ++
      s!" refers to incompatible symbol `{symbol}`"
  | unsupported limitation => s!"Unsupported: {limitation.message}"
  | dangling => "reference to an input, import or symbol that does not exist"
  | overflow => "number does not fit in 32 bits"

/-- The defect of an input that lies behind the error, also when the error names the input. -/
def defect? : Error → Option Defect
  | malformed fault => some fault.defect
  | input _ cause => cause.defect?
  | _ => none

end Error

/-- A step succeeds after another one exactly if both succeed. -/
theorem bind_eq_ok {α β ε : Type} {first : Except ε α} {next : α → Except ε β} {result : β} :
    first >>= next = .ok result ↔ ∃ value, first = .ok value ∧ next value = .ok result := by
  cases first <;> simp [bind, Except.bind]

/-- The value that a reference leads to, or the error of a reference that leads nowhere. -/
def existing {α : Type} (value : Option α) : Except Error α :=
  match value with
  | some value => .ok value
  | none => .error .dangling

@[simp] theorem existing_eq_ok {α : Type} {value : Option α} {found : α} :
    existing value = .ok found ↔ value = some found := by
  cases value <;> simp [existing]

/-- A number that has to fit in a word. -/
def inWord (number : Nat) : Except Error Nat :=
  if number < wordLimit then .ok number else .error .overflow

@[simp] theorem inWord_eq_ok {number word : Nat} :
    inWord number = .ok word ↔ number < wordLimit ∧ number = word := by
  unfold inWord
  split <;> simp [*]

end StaticLink
