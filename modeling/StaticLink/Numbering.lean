import StaticLink.ObjectModule
import StaticLink.Symbol.Table

/-!
# Numbering

The types, functions, globals and table entries of the inputs are numbered one input after the
other: the first of input `owner` has `countBefore count modules owner` others before it.

* `countBefore`, `countAll`: how many there are of something in the first inputs, or in all.
* `typeBase`, `typeCount`: the number of the first type of an input, and of all types.
-/

namespace StaticLink

/-- How many there are of something in all modules. -/
def countAll (count : ObjectModule → Nat) : (modules : List ObjectModule) → Nat
  | [] => 0
  | module :: rest => count module + countAll count rest

/-- How many there are of something in the modules before `owner`. -/
def countBefore (count : ObjectModule → Nat) (modules : List ObjectModule) (owner : ModuleId) :
    Nat :=
  countAll count (modules.take owner)

@[simp] theorem countBefore_zero (count : ObjectModule → Nat) (modules : List ObjectModule) :
    countBefore count modules 0 = 0 := rfl

theorem countBefore_succ {count : ObjectModule → Nat} {modules : List ObjectModule}
    {owner : ModuleId} {module : ObjectModule} (found : modules[owner]? = some module) :
    countBefore count modules (owner + 1) = countBefore count modules owner + count module := by
  induction modules generalizing owner with
  | nil => simp at found
  | cons first rest ih =>
    cases owner with
    | zero =>
      obtain rfl : first = module := by simpa using found
      simp [countBefore, countAll]
    | succ owner =>
      have later := ih (by simpa using found)
      simp only [countBefore, List.take_succ_cons, countAll] at later ⊢
      omega

/-- The input at position `owner`. -/
def inputAt (modules : List ObjectModule) (owner : ModuleId) : Except Error ObjectModule :=
  existing modules[owner]?

namespace ObjectModule

/-- How many entries the first section with this id declares. -/
def declaredCount (module : ObjectModule) (id : SectionId) : Nat :=
  ((module.section? id).bind (·.header.count)).elim 0 UInt32.toNat

end ObjectModule

namespace SymbolTable

/-- Whether a function of the linker has the constructor caller's type, which no input need have. -/
def callsConstructors (table : SymbolTable) : Bool :=
  table.syntheticFunctions.any fun id =>
    (table.records[id]?).any fun symbol =>
      match symbol.target with
      | .function (.synthesized (.constructorCaller _)) => true
      | _ => false

/-- How many types come before those of the inputs. -/
def leadingTypes (table : SymbolTable) : Nat := if table.callsConstructors then 1 else 0

end SymbolTable

/-- The number of the first type of input `owner`. -/
def typeBase (modules : List ObjectModule) (symbols : SymbolTable) (owner : ModuleId) : Nat :=
  symbols.leadingTypes + countBefore (·.declaredCount .types) modules owner

/-- How many types there are. -/
def typeCount (modules : List ObjectModule) (symbols : SymbolTable) : Nat :=
  symbols.leadingTypes + countAll (·.declaredCount .types) modules

end StaticLink
