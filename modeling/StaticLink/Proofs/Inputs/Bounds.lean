import StaticLink.Proofs.Inputs.Meanings

/-!
# What a module has

Symbols name parts of modules by their positions. A module only grows while it is read, so that
what is in bounds once stays so.

* `ObjectModule.Has`: a target is in bounds in a module; `Target.Within`: in the module that owns
  it, among several.
* `SymbolEntry.Within`: an entry of a symbol table names a part of its module.
* `ObjectModule.means_of_resolve`: what an entry resolves to is in bounds and of the kind of the entry.
-/

namespace StaticLink

/-! ## Targets and entries in bounds -/

namespace ObjectModule

/-- The part of the module that a target stands for exists. -/
def Has (module : ObjectModule) : (target : Target) → Prop
  | .function (.defined _ position) => position.toNat < module.functions.size
  | .function (.undefined _ position) => position.toNat < module.functionImports.size
  | .global (.defined _ position) => position.toNat < module.globals.size
  | .global (.undefined _ position) => position.toNat < module.globalImports.size
  | .data (.defined _ segment _ _) => segment.toNat < module.dataSegments.size
  | _ => True

/-- The module `new` has all that `old` has. -/
structure Grows (old new : ObjectModule) : Prop where
  functionImports : old.functionImports.size ≤ new.functionImports.size
  globalImports : old.globalImports.size ≤ new.globalImports.size
  functions : old.functions.size ≤ new.functions.size
  globals : old.globals.size ≤ new.globals.size
  dataSegments : old.dataSegments.size ≤ new.dataSegments.size

theorem Grows.refl (module : ObjectModule) : module.Grows module where
  functionImports := Nat.le_refl _
  globalImports := Nat.le_refl _
  functions := Nat.le_refl _
  globals := Nat.le_refl _
  dataSegments := Nat.le_refl _

theorem Grows.trans {old middle new : ObjectModule} (first : old.Grows middle)
    (second : middle.Grows new) : old.Grows new where
  functionImports := Nat.le_trans first.functionImports second.functionImports
  globalImports := Nat.le_trans first.globalImports second.globalImports
  functions := Nat.le_trans first.functions second.functions
  globals := Nat.le_trans first.globals second.globals
  dataSegments := Nat.le_trans first.dataSegments second.dataSegments

theorem Has.grows {old new : ObjectModule} {target : Target} (has : old.Has target)
    (grows : old.Grows new) : new.Has target := by
  cases target with
  | function target =>
    cases target with
    | defined => exact Nat.lt_of_lt_of_le has grows.functions
    | undefined => exact Nat.lt_of_lt_of_le has grows.functionImports
    | synthesized => trivial
  | global target =>
    cases target with
    | defined => exact Nat.lt_of_lt_of_le has grows.globals
    | undefined => exact Nat.lt_of_lt_of_le has grows.globalImports
    | synthesized => trivial
  | data target =>
    cases target with
    | defined => exact Nat.lt_of_lt_of_le has grows.dataSegments
    | undefined => trivial
    | synthesized => trivial

end ObjectModule

namespace Target

/-- The module that a target belongs to. -/
def owner? : Target → Option ModuleId
  | .function (.defined owner _) | .function (.undefined owner _) | .global (.defined owner _)
  | .global (.undefined owner _) | .data (.defined owner _ _ _) => some owner
  | _ => none

/-- The function import that a target stands for. -/
def import? : Target → Option UInt32
  | .function (.undefined _ position) => some position
  | _ => none

/-- The target is in bounds in the module that it belongs to. -/
def Within (modules : List ObjectModule) (target : Target) : Prop :=
  ∀ owner, target.owner? = some owner →
    ∃ module, modules[owner]? = some module ∧ module.Has target

variable {modules : List ObjectModule} {module old new : ObjectModule} {target : Target}

theorem Within.append (within : target.Within modules) (more : List ObjectModule) :
    target.Within (modules ++ more) := by
  intro owner owns
  obtain ⟨module, here, has⟩ := within owner owns
  refine ⟨module, ?_, has⟩
  rw [List.getElem?_append_left (List.getElem?_eq_some_iff.1 here).1]
  exact here

theorem Within.grows (within : target.Within (modules ++ [old])) (grows : old.Grows new) :
    target.Within (modules ++ [new]) := by
  intro owner owns
  obtain ⟨module, here, has⟩ := within owner owns
  by_cases earlier : owner < modules.length
  · rw [List.getElem?_append_left earlier] at here
    exact ⟨module, by rw [List.getElem?_append_left earlier, here], has⟩
  · -- The target belongs to the module that has grown.
    have later : modules.length ≤ owner := Nat.le_of_not_lt earlier
    rw [List.getElem?_append_right later, List.getElem?_singleton] at here
    split at here
    · next last =>
      cases here
      refine ⟨new, ?_, has.grows grows⟩
      rw [List.getElem?_append_right later, last]
      rfl
    · cases here

/-- A target of the last module. -/
theorem within_of_has (has : module.Has target)
    (owns : ∀ owner, target.owner? = some owner → owner = modules.length) :
    target.Within (modules ++ [module]) := by
  intro owner here
  obtain rfl := owns owner here
  exact ⟨module, by simp, has⟩

end Target

namespace SymbolEntry

/-- The entry names a part of the module that exists. -/
def Within (module : ObjectModule) : (entry : SymbolEntry) → Prop
  | .function _ index _ => index.toNat < module.functionImports.size + module.functions.size
  | .global _ index _ => index.toNat < module.globalImports.size + module.globals.size
  | .data _ _ (some place) => place.segment.toNat < module.dataSegments.size
  | _ => True

theorem Within.grows {entry : SymbolEntry} {old new : ObjectModule} (within : entry.Within old)
    (grows : old.Grows new) : entry.Within new := by
  cases entry with
  | function =>
    exact Nat.lt_of_lt_of_le within (Nat.add_le_add grows.functionImports grows.functions)
  | global => exact Nat.lt_of_lt_of_le within (Nat.add_le_add grows.globalImports grows.globals)
  | data flags name place =>
    cases place with
    | none => trivial
    | some => exact Nat.lt_of_lt_of_le within grows.dataSegments
  | wholeSection => trivial
  | event => trivial
  | table => trivial

/-- The function import that an entry stands for. -/
def import? : SymbolEntry → Option UInt32
  | .function flags index _ => if flags.contains .undefined then some index else none
  | _ => none

/-- What the symbol of an entry is, if it has one. -/
def targetKind? : SymbolEntry → Option Target.Kind
  | function _ _ _ => some .function
  | data _ _ _ => some .data
  | global _ _ _ => some .global
  | _ => none

end SymbolEntry

namespace ObjectModule

variable {module : ObjectModule} {owner : ModuleId} {entryIndex : UInt32} {entry : SymbolEntry}

/-- A symbol of input `owner` is what its entry is and stands for a part of the module, and other
entries have no symbols. -/
def Means (module : ObjectModule) (owner : ModuleId) (entry : SymbolEntry) :
    (meaning : Meaning) → Prop
  | .named _ target => (entry.targetKind? = some target.kind ∧ entry.import? = target.import?) ∧
      module.Has target ∧ ∀ other, target.owner? = some other → other = owner
  | .unnamed slot => entry.targetKind? = none ∧ ∀ id, slot ≠ .symbol id
  | .tag => entry.targetKind? = none

/-- An entry that means anything is in bounds, and so is what it means. -/
theorem means_of_resolve {meaning : Meaning}
    (h : module.resolve owner entryIndex entry = .ok meaning) :
    entry.Within module ∧ module.Means owner entry meaning := by
  have mine (other : ModuleId) (same : some owner = some other) : other = owner :=
    (Option.some.inj same).symm
  have absent {other : ModuleId} (none : none = some other) : other = owner := by cases none
  cases resolve_eq_ok_iff.1 h with
  | functionReference undefined here =>
    have small := (Array.getElem?_eq_some_iff.1 here).1
    exact ⟨Nat.lt_add_right _ small, ⟨rfl, if_pos undefined⟩, small, mine⟩
  | functionDefinition defined place small =>
    refine ⟨?_, ⟨rfl, if_neg (ne_true_of_eq_false defined)⟩, small, mine⟩
    exact Nat.lt_of_le_of_lt (Nat.le_of_eq place) (Nat.add_lt_add_left small _)
  | globalReference undefined here =>
    have small := (Array.getElem?_eq_some_iff.1 here).1
    exact ⟨Nat.lt_add_right _ small, ⟨rfl, rfl⟩, small, mine⟩
  | globalDefinition defined place small =>
    refine ⟨?_, ⟨rfl, rfl⟩, small, mine⟩
    exact Nat.lt_of_le_of_lt (Nat.le_of_eq place) (Nat.add_lt_add_left small _)
  | dataReference => exact ⟨trivial, ⟨rfl, rfl⟩, trivial, fun _ => absent⟩
  | dataDefinition small => exact ⟨small, ⟨rfl, rfl⟩, small, mine⟩
  | wholeSection => exact ⟨trivial, rfl, by simp⟩
  | table => exact ⟨trivial, rfl, by simp⟩
  | tag => exact ⟨trivial, rfl⟩

end ObjectModule

end StaticLink
