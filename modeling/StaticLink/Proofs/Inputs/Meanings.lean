import StaticLink.ObjectModule.Loading

/-!
# What entries of a symbol table mean

`ObjectModule.resolve` says in one go what an entry means and whether it is in bounds. Here its
answers are told apart: one rule for each of them.

* `ObjectModule.Resolves`: an entry means this in view of what a module has.
* `ObjectModule.resolve_eq_ok_iff`: these are the meanings that entries are resolved to.
-/

namespace StaticLink

namespace ObjectModule

variable {module : ObjectModule} {owner : ModuleId} {entryIndex : UInt32} {entry : SymbolEntry}
  {meaning : Meaning}

/-! ## Places behind the imports -/

/-- What is defined comes after the imports. -/
theorem definedPosition?_eq_some_iff {imports defined : Nat} {index position : UInt32} :
    definedPosition? imports defined index = some position ↔
      index.toNat = imports + position.toNat ∧ position.toNat < defined := by
  unfold definedPosition?
  have small := index.toNat_lt
  constructor
  · intro h
    split at h
    · next within =>
      cases h
      rw [UInt32.toNat_ofNat_of_lt' (by rw [UInt32.size]; omega)]
      omega
    · cases h
  · rintro ⟨place, within⟩
    have same : index.toNat - imports = position.toNat := by omega
    rw [if_pos (by omega), same, UInt32.ofNat_toNat]

theorem resolveDefined_eq_ok_iff {imports defined : Nat} {index : UInt32} {name : Option String}
    {invalid : Defect} {found : String × UInt32} :
    resolveDefined imports defined index entryIndex name invalid = .ok found ↔
      name = some found.1 ∧ index.toNat = imports + found.2.toNat ∧ found.2.toNat < defined := by
  rw [← definedPosition?_eq_some_iff]
  obtain ⟨given, place⟩ := found
  unfold resolveDefined
  rcases definedPosition? imports defined index with _ | position
  · simp
  · rcases name with _ | name
    · simp
    · simp

/-! ## The meanings of entries -/

/-- What an entry means in `module`, the input at position `owner`. A reference is to an import,
whose field is its name if it has no other. What is defined has a name and is counted behind the
imports. -/
inductive Resolves (module : ObjectModule) (owner : ModuleId) :
    (entry : SymbolEntry) → (meaning : Meaning) → Prop
  | functionReference {flags : SymbolFlags} {index : UInt32} {name : Option String}
      {found : FunctionImport} (undefined : flags.contains .undefined = true)
      (here : module.functionImports[index.toNat]? = some found) :
    Resolves module owner (.function flags index name)
      (.named (name.getD found.field) (.function (.undefined owner index)))
  | functionDefinition {flags : SymbolFlags} {index position : UInt32} {name : String}
      (defined : flags.contains .undefined = false)
      (place : index.toNat = module.functionImports.size + position.toNat)
      (small : position.toNat < module.functions.size) :
    Resolves module owner (.function flags index (some name))
      (.named name (.function (.defined owner position)))
  | globalReference {flags : SymbolFlags} {index : UInt32} {name : Option String}
      {found : GlobalImport} (undefined : flags.contains .undefined = true)
      (here : module.globalImports[index.toNat]? = some found) :
    Resolves module owner (.global flags index name)
      (.named (name.getD found.field) (.global (.undefined owner index)))
  | globalDefinition {flags : SymbolFlags} {index position : UInt32} {name : String}
      (defined : flags.contains .undefined = false)
      (place : index.toNat = module.globalImports.size + position.toNat)
      (small : position.toNat < module.globals.size) :
    Resolves module owner (.global flags index (some name))
      (.named name (.global (.defined owner position)))
  | dataReference {flags : SymbolFlags} {name : String} :
    Resolves module owner (.data flags name none) (.named name (.data .undefined))
  | dataDefinition {flags : SymbolFlags} {name : String} {place : DataDefinition}
      (small : place.segment.toNat < module.dataSegments.size) :
    Resolves module owner (.data flags name (some place))
      (.named name (.data (.defined owner place.segment place.offset place.size)))
  | wholeSection {flags : SymbolFlags} {position : UInt32} :
    Resolves module owner (.wholeSection flags position) (.unnamed (.wholeSection position))
  | table {flags : SymbolFlags} {index : UInt32} {name : Option String} :
    Resolves module owner (.table flags index name) (.unnamed (.table index))
  | tag {flags : SymbolFlags} {index : UInt32} {name : Option String} :
    Resolves module owner (.event flags index name) .tag

/-- What is resolved as something defined is at its place behind the imports. -/
theorem named_of_resolveDefined {imports defined : Nat} {index : UInt32} {name : Option String}
    {invalid : Defect} (target : UInt32 → Target)
    (h : (do
      let found ← resolveDefined imports defined index entryIndex name invalid
      return Meaning.named found.1 (target found.2)) = .ok meaning) :
    ∃ given position, name = some given ∧ meaning = .named given (target position) ∧
      index.toNat = imports + position.toNat ∧ position.toNat < defined := by
  obtain ⟨found, resolved, same⟩ := bind_eq_ok.1 h
  cases same
  obtain ⟨named, within⟩ := resolveDefined_eq_ok_iff.1 resolved
  exact ⟨found.1, found.2, named, rfl, within⟩

theorem resolves_of_resolve (h : module.resolve owner entryIndex entry = .ok meaning) :
    module.Resolves owner entry meaning := by
  unfold resolve at h
  cases entry with
  | function flags index name =>
    dsimp only at h
    split at h
    · next undefined =>
      split at h
      · next found here =>
        cases h
        exact .functionReference undefined here
      · cases h
    · next defined =>
      obtain ⟨given, position, rfl, rfl, place, small⟩ :=
        named_of_resolveDefined (fun position => .function (.defined owner position)) h
      exact .functionDefinition (eq_false_of_ne_true defined) place small
  | global flags index name =>
    dsimp only at h
    split at h
    · next undefined =>
      split at h
      · next found here =>
        cases h
        exact .globalReference undefined here
      · cases h
    · next defined =>
      obtain ⟨given, position, rfl, rfl, place, small⟩ :=
        named_of_resolveDefined (fun position => .global (.defined owner position)) h
      exact .globalDefinition (eq_false_of_ne_true defined) place small
  | data flags name place =>
    cases place with
    | none =>
      cases h
      exact .dataReference
    | some place =>
      dsimp only at h
      split at h
      · next small =>
        cases h
        exact .dataDefinition small
      · cases h
  | wholeSection =>
    cases h
    exact .wholeSection
  | event =>
    cases h
    exact .tag
  | table =>
    cases h
    exact .table

/-- An entry is resolved to this exactly if it is what the entry means. -/
theorem resolve_eq_ok_iff :
    module.resolve owner entryIndex entry = .ok meaning ↔ module.Resolves owner entry meaning := by
  refine ⟨resolves_of_resolve, fun resolves => ?_⟩
  unfold resolve
  cases resolves with
  | functionReference undefined here =>
    dsimp only
    rw [if_pos undefined, here]
  | globalReference undefined here =>
    dsimp only
    rw [if_pos undefined, here]
  | functionDefinition defined place small =>
    dsimp only
    rw [if_neg (ne_true_of_eq_false defined)]
    exact bind_eq_ok.2 ⟨(_, _), resolveDefined_eq_ok_iff.2 ⟨rfl, place, small⟩, rfl⟩
  | globalDefinition defined place small =>
    dsimp only
    rw [if_neg (ne_true_of_eq_false defined)]
    exact bind_eq_ok.2 ⟨(_, _), resolveDefined_eq_ok_iff.2 ⟨rfl, place, small⟩, rfl⟩
  | dataDefinition small => exact if_pos small
  | dataReference | wholeSection | table | tag => rfl

end ObjectModule

end StaticLink
