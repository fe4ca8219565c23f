import StaticLink.Proofs.Inputs.Loading

/-!
# The names of entries and the symbols of imports

An entry of a symbol table has a name of its own, or it refers to an import and goes by the field
of that. The import in turn stands for the symbol of the last entry that refers to it.

* `ImportPlace`: a function or global import of a module.
* `ObjectModule.entryName?`: the name that an entry goes by in its module.
* `ObjectModule.Recalls`: a module keeps the fields of its imports while it is read.
* `slotsNaming`: the slots of the entries that refer to an import.
-/

namespace StaticLink

/-! ## Arrays of which one item changes -/

section

variable {α β : Type} {items : Array α} {value : β}

/-- What a change leaves is the same everywhere. -/
theorem map_getElem?_modify (items : Array α) (position : Nat) {change : α → α} (view : α → β)
    (same : ∀ item, view (change item) = view item) (other : Nat) :
    ((items.modify position change)[other]?).map view = (items[other]?).map view := by
  rw [Array.getElem?_modify]
  split
  · rw [Option.map_map]
    exact congrArg (Option.map · items[other]?) (funext same)
  · rfl

/-- What a change sets is set at its place. -/
theorem bind_getElem?_modify {position : Nat} (small : position < items.size) {change : α → α}
    (view : α → Option β) (value : β) (sets : ∀ item, view (change item) = some value)
    (other : Nat) :
    ((items.modify position change)[other]?).bind view =
      if position = other then some value else (items[other]?).bind view := by
  rw [Array.getElem?_modify]
  split
  · next here =>
    subst here
    rw [Array.getElem?_eq_getElem small, Option.map_some, Option.bind_some, sets]
  · rfl

theorem map_getElem?_push {view : α → β} {item : α} {position : Nat}
    (here : (items[position]?).map view = some value) :
    ((items.push item)[position]?).map view = some value := by
  obtain ⟨found, there, rfl⟩ := Option.map_eq_some_iff.1 here
  have small := (Array.getElem?_eq_some_iff.1 there).1
  rw [Array.getElem?_push, if_neg (Nat.ne_of_lt small), there, Option.map_some]

/-- An item of which nothing is known adds nothing. -/
theorem bind_getElem?_push {view : α → Option β} {item : α} (items : Array α)
    (fresh : view item = none) (position : Nat) :
    ((items.push item)[position]?).bind view = (items[position]?).bind view := by
  rw [Array.getElem?_push]
  split
  · next last => rw [last, Array.getElem?_eq_none (Nat.le_refl _), Option.bind_some, fresh]; rfl
  · rfl

end

/-! ## Entries and imports -/

/-- An import of a module that symbols can stand for, by its position among those of its kind. -/
inductive ImportPlace
  | function (position : Nat)
  | global (position : Nat)
deriving DecidableEq, Repr

namespace SymbolEntry

/-- Whether the symbol of the entry is private to its input. -/
def isLocal (entry : SymbolEntry) : Bool := entry.flags.contains .localBinding

/-- The name that the entry itself gives to its symbol. -/
def givenName? : SymbolEntry → Option String
  | .function _ _ name | .global _ _ name => name
  | .data _ name _ => some name
  | _ => none

/-- The import that the entry refers to. -/
def importPlace? : SymbolEntry → Option ImportPlace
  | .function flags index _ =>
    if flags.contains .undefined then some (.function index.toNat) else none
  | .global flags index _ =>
    if flags.contains .undefined then some (.global index.toNat) else none
  | _ => none

end SymbolEntry

/-- The import that the target stands for. -/
def Target.importPlace? : Target → Option ImportPlace
  | .function (.undefined _ position) => some (.function position.toNat)
  | .global (.undefined _ position) => some (.global position.toNat)
  | _ => none

namespace ObjectModule

/-- The field of an import. -/
def field? (module : ObjectModule) : ImportPlace → Option String
  | .function position => (module.functionImports[position]?).map (·.field)
  | .global position => (module.globalImports[position]?).map (·.field)

/-- The symbol that an import stands for. -/
def symbolOf? (module : ObjectModule) : ImportPlace → Option SymbolId
  | .function position => (module.functionImports[position]?).bind (·.symbol)
  | .global position => (module.globalImports[position]?).bind (·.symbol)

/-- The name that an entry goes by: the one that it gives, or else the field of its import. -/
def entryName? (module : ObjectModule) (entry : SymbolEntry) : Option String :=
  entry.givenName?.or (entry.importPlace?.bind module.field?)

/-- The module `new` has the imports of `old` under the same fields. -/
def Recalls (old new : ObjectModule) : Prop :=
  ∀ place field, old.field? place = some field → new.field? place = some field

variable {module old new : ObjectModule} {entry : SymbolEntry} {name : String}
  {target : Target} {id : SymbolId}

theorem Recalls.refl (module : ObjectModule) : module.Recalls module := fun _ _ here => here

/-- An entry goes by its name in every later module. -/
theorem Recalls.entryName? (recalls : old.Recalls new) (named : old.entryName? entry = some name) :
    new.entryName? entry = some name := by
  unfold ObjectModule.entryName? at *
  rcases Option.or_eq_some_iff.1 named with given | ⟨none, field⟩
  · rw [given]
    rfl
  · obtain ⟨place, refers, here⟩ := Option.bind_eq_some_iff.1 field
    rw [none, refers]
    exact recalls place name here

/-! ## What entries mean -/

/-- An entry that has a symbol goes by the name of this symbol, and stands for the same import. -/
theorem entryName?_of_resolve {owner : ModuleId} {index : UInt32}
    (h : module.resolve owner index entry = .ok (.named name target)) :
    module.entryName? entry = some name ∧ entry.importPlace? = target.importPlace? ∧
      ∀ place, target.importPlace? = some place → (module.field? place).isSome = true := by
  -- A reference has an import, whose field is its name if it has no other.
  have referred {given : Option String} {field : String} {place : ImportPlace}
      (here : module.field? place = some field) :
      given.or ((some place).bind module.field?) = some (given.getD field) := by
    rw [Option.bind_some, here]
    cases given <;> rfl
  have absent (place : ImportPlace) (none : (none : Option ImportPlace) = some place) :
      (module.field? place).isSome = true := by cases none
  unfold entryName? SymbolEntry.givenName? SymbolEntry.importPlace?
  cases resolve_eq_ok_iff.1 h with
  | @functionReference flags position given found undefined here =>
    have field : module.field? (.function position.toNat) = some found.field := by
      rw [field?, here, Option.map_some]
    dsimp only
    rw [if_pos undefined]
    refine ⟨referred field, rfl, ?_⟩
    rintro place ⟨⟩
    rw [field, Option.isSome_some]
  | @globalReference flags position given found undefined here =>
    have field : module.field? (.global position.toNat) = some found.field := by
      rw [field?, here, Option.map_some]
    dsimp only
    rw [if_pos undefined]
    refine ⟨referred field, rfl, ?_⟩
    rintro place ⟨⟩
    rw [field, Option.isSome_some]
  | functionDefinition defined | globalDefinition defined =>
    exact ⟨rfl, if_neg (ne_true_of_eq_false defined), absent⟩
  | dataReference | dataDefinition => exact ⟨rfl, rfl, absent⟩

/-! ## Imports that are named -/

/-- Naming an import keeps the fields of all imports. -/
theorem recalls_nameImport (module : ObjectModule) (target : Target) (id : SymbolId) :
    module.Recalls (module.nameImport target id) := by
  intro place field here
  rw [← here]
  rcases target with (_ | ⟨owner, position⟩ | _) | (_ | ⟨owner, position⟩ | _) | _
  case function.undefined =>
    cases place with
    | function other =>
      refine map_getElem?_modify _ _ _ ?_ other
      exact fun _ => rfl
    | global other => rfl
  case global.undefined =>
    cases place with
    | function other => rfl
    | global other =>
      refine map_getElem?_modify _ _ _ ?_ other
      exact fun _ => rfl
  all_goals rfl

/-- A symbol becomes that of the import which it names, and other imports keep theirs. -/
theorem symbolOf?_nameImport
    (exist : ∀ place, target.importPlace? = some place → (module.field? place).isSome = true)
    (place : ImportPlace) :
    (module.nameImport target id).symbolOf? place =
      if target.importPlace? = some place then some id else module.symbolOf? place := by
  rcases target with (_ | ⟨owner, position⟩ | _) | (_ | ⟨owner, position⟩ | _) | _
  case function.undefined =>
    have small : position.toNat < module.functionImports.size := by
      simpa [field?] using exist (.function position.toNat) rfl
    cases place with
    | function other =>
      simp only [Target.importPlace?, Option.some.injEq, ImportPlace.function.injEq]
      refine bind_getElem?_modify small _ _ ?_ other
      exact fun _ => rfl
    | global other => simp [Target.importPlace?, nameImport, symbolOf?]
  case global.undefined =>
    have small : position.toNat < module.globalImports.size := by
      simpa [field?] using exist (.global position.toNat) rfl
    cases place with
    | function other => simp [Target.importPlace?, nameImport, symbolOf?]
    | global other =>
      simp only [Target.importPlace?, Option.some.injEq, ImportPlace.global.injEq]
      refine bind_getElem?_modify small _ _ ?_ other
      exact fun _ => rfl
  all_goals rfl

end ObjectModule

/-! ## Entries that refer to an import -/

/-- The slots of the entries that refer to the import, in their order. -/
def slotsNaming (place : ImportPlace) (entries : List SymbolEntry) (slots : List Slot) :
    List Slot :=
  ((entries.zip slots).filter fun (entry, _) => decide (entry.importPlace? = some place)).map (·.2)

theorem slotsNaming_concat {entries : List SymbolEntry} {slots : List Slot}
    (size : entries.length = slots.length) (place : ImportPlace) (entry : SymbolEntry)
    (slot : Slot) :
    slotsNaming place (entries ++ [entry]) (slots ++ [slot]) =
      slotsNaming place entries slots ++
        if entry.importPlace? = some place then [slot] else [] := by
  unfold slotsNaming
  rw [List.zip_append size, List.filter_append, List.map_append]
  by_cases refers : entry.importPlace? = some place <;> simp [refers]

/-- The imports of the module stand for the symbols of the last entries that refer to them. -/
def ObjectModule.NamesAll (module : ObjectModule) (entries : List SymbolEntry) : Prop :=
  ∀ place, (module.symbolOf? place).map Slot.symbol =
    (slotsNaming place entries module.slots.toList).getLast?

/-- An event that is no symbol keeps the imports with their symbols. -/
theorem Loader.note_imports {owner : ModuleId} {event : Event} {before after : Loading}
    (h : note owner event before = .ok () after)
    (other : ∀ index entry, event ≠ .symbol index entry) :
    before.module.Recalls after.module ∧
      after.module.symbolOf? = before.module.symbolOf? := by
  have same (functions : after.module.functionImports = before.module.functionImports)
      (globals : after.module.globalImports = before.module.globalImports) :
      before.module.Recalls after.module ∧
        after.module.symbolOf? = before.module.symbolOf? := by
    unfold ObjectModule.Recalls ObjectModule.field? ObjectModule.symbolOf?
    rw [functions, globals]
    exact ⟨fun _ _ here => here, rfl⟩
  cases event with
  | symbol index entry => exact absurd rfl (other index entry)
  | functionImport module field index typeIndex =>
    cases h
    refine ⟨fun place field here => ?_, funext fun place => ?_⟩
    · cases place with
      | function position => exact map_getElem?_push here
      | global position => exact here
    · cases place with
      | function position => exact bind_getElem?_push _ rfl position
      | global position => rfl
  | globalImport module field index type =>
    cases h
    refine ⟨fun place field here => ?_, funext fun place => ?_⟩
    · cases place with
      | function position => exact here
      | global position => exact map_getElem?_push here
    · cases place with
      | function position => rfl
      | global position => exact bind_getElem?_push _ rfl position
  | segmentInfo =>
    rw [note_segmentInfo] at h
    split at h
    · cases h
      exact same rfl rfl
    · cases h
  | relocation =>
    rw [note_relocation] at h
    split at h
    · cases h
      exact same rfl rfl
    · cases h
  | _ =>
    cases h
    exact same rfl rfl

end StaticLink
