import StaticLink.Proofs.Inputs.Contents

/-!
# Symbols and what comes after them

An entry of a symbol table is resolved when it is read, in view of what comes before it in the file.
Sections may come in any order, and an import that comes later moves the indices of all that the
module defines. The entry keeps what it was resolved to, and nothing refuses the file.

* `ObjectModule.Extended`: a module to which events have added what they say.
* `Event.Displaces`: an import moves what an entry defines.
* `ObjectModule.Names`: what an entry is resolved to.
* `ObjectModule.Extended.resolve_iff`: the module as a whole says the same of an entry if none of
  these imports follows.
* `ObjectModule.load_resolves`: the entries of every module that is loaded.
-/

namespace StaticLink

/-- The import before anything stands for it. -/
def FunctionImport.bare (found : FunctionImport) : FunctionImport := { found with symbol := none }

def GlobalImport.bare (found : GlobalImport) : GlobalImport := { found with symbol := none }

namespace Event

def functionImport? : Event → Option FunctionImport
  | functionImport module field _ typeIndex => some { module, field, typeIndex }
  | _ => none

def globalImport? : Event → Option GlobalImport
  | globalImport module field _ type => some { module, field, type }
  | _ => none

/-- The event is an import of the kind of the entry, which is for something that the module
defines. The indices of what it defines come after those of the imports. -/
def Displaces (event : Event) : (entry : SymbolEntry) → Prop
  | .function flags _ _ => flags.contains .undefined = false ∧ event.functionImport?.isSome
  | .global flags _ _ => flags.contains .undefined = false ∧ event.globalImport?.isSome
  | _ => False

instance (event : Event) (entry : SymbolEntry) : Decidable (event.Displaces entry) := by
  unfold Displaces
  split <;> infer_instance

/-- The entries for functions and globals agree with the module as a whole: after one for something
that the module defines no more imports of its kind come. -/
def InOrder (events : List Event) : Prop :=
  ∀ before index entry after, events = before ++ .symbol index entry :: after →
    ∀ event ∈ after, ¬ event.Displaces entry

variable {flags : SymbolFlags} {index : UInt32} {name : Option String}

/-- A reference to an import is the same however many imports follow. -/
theorem not_displaces_function (event : Event) (undefined : flags.contains .undefined = true) :
    ¬ event.Displaces (.function flags index name) :=
  fun moved => Bool.noConfusion (undefined.symm.trans moved.1)

theorem not_displaces_global (event : Event) (undefined : flags.contains .undefined = true) :
    ¬ event.Displaces (.global flags index name) :=
  fun moved => Bool.noConfusion (undefined.symm.trans moved.1)

theorem not_displaces_symbol (entry other : SymbolEntry) :
    ¬ (symbol index other).Displaces entry := by
  unfold Displaces
  split
  · exact fun moved => Bool.noConfusion moved.2
  · exact fun moved => Bool.noConfusion moved.2
  · exact id

end Event

namespace ObjectModule

/-- The module `new` is `old` with what the events add to it. -/
structure Extended (old : ObjectModule) (events : List Event) (new : ObjectModule) : Prop where
  functionImports : new.functionImports.toList.map (·.bare) =
    old.functionImports.toList.map (·.bare) ++ events.filterMap Event.functionImport?
  globalImports : new.globalImports.toList.map (·.bare) =
    old.globalImports.toList.map (·.bare) ++ events.filterMap Event.globalImport?
  grows : old.Grows new

namespace Extended

variable {old middle new : ObjectModule} {event : Event} {events : List Event}

theorem refl (module : ObjectModule) : module.Extended [] module :=
  ⟨(List.append_nil _).symm, (List.append_nil _).symm, .refl module⟩

theorem concat (first : old.Extended events middle) (second : middle.Extended [event] new) :
    old.Extended (events ++ [event]) new where
  functionImports := by
    rw [second.functionImports, first.functionImports, List.append_assoc, List.filterMap_append]
  globalImports := by
    rw [second.globalImports, first.globalImports, List.append_assoc, List.filterMap_append]
  grows := first.grows.trans second.grows

/-- An event that is no import. -/
theorem of_same (grows : old.Grows new)
    (functions : new.functionImports.toList.map (·.bare) = old.functionImports.toList.map (·.bare))
    (globals : new.globalImports.toList.map (·.bare) = old.globalImports.toList.map (·.bare))
    (noFunction : event.functionImport? = none) (noGlobal : event.globalImport? = none) :
    old.Extended [event] new where
  functionImports := by
    rw [functions, List.filterMap_cons_none noFunction]
    exact (List.append_nil _).symm
  globalImports := by
    rw [globals, List.filterMap_cons_none noGlobal]
    exact (List.append_nil _).symm
  grows := grows

end Extended

variable {old new module : ObjectModule} {owner : ModuleId} {entryIndex index : UInt32}
  {entry : SymbolEntry} {meaning : Meaning} {events : List Event} {event : Event}

/-- A symbol that stands for an import does not change what the import says. -/
theorem bare_nameImport (module : ObjectModule) (target : Target) (id : SymbolId) :
    (module.nameImport target id).functionImports.toList.map (·.bare) =
        module.functionImports.toList.map (·.bare) ∧
      (module.nameImport target id).globalImports.toList.map (·.bare) =
        module.globalImports.toList.map (·.bare) := by
  unfold nameImport
  split
  · exact ⟨map_modify _ _ fun _ => rfl, rfl⟩
  · exact ⟨rfl, map_modify _ _ fun _ => rfl⟩
  · exact ⟨rfl, rfl⟩

/-- An entry that is resolved adds nothing that the module imports or defines. -/
theorem extended_of_resolve {before after : Loading} {slot : Slot}
    (h : Loader.resolve owner index entry before = .ok slot after) :
    before.module.Extended [.symbol index entry] after.module := by
  rcases Loader.module_of_resolve h with same | ⟨target, id, same⟩
  · rw [same]
    exact .of_same (.refl before.module) rfl rfl rfl rfl
  · obtain ⟨functions, globals⟩ := bare_nameImport before.module target id
    rw [same]
    exact .of_same (Loader.nameImport_grows before.module target id).2 functions globals rfl rfl

/-- Every event adds to the module what it says. -/
theorem extended_of_note {before after : Loading}
    (h : Loader.note owner event before = .ok () after) :
    before.module.Extended [event] after.module := by
  cases event with
  | symbol index entry =>
    obtain ⟨slot, middle, one, h⟩ := state_bind_eq_ok.1 h
    cases h
    have extended := extended_of_resolve one
    exact ⟨extended.functionImports, extended.globalImports,
      extended.grows.trans (grows_push middle.module slot)⟩
  | functionImport module field index typeIndex =>
    have grows := (Loader.note_other h (by rintro _ _ ⟨⟩)).2.2.1
    cases h
    refine ⟨?_, (List.append_nil _).symm, grows⟩
    rw [Array.toList_push, List.map_append]
    rfl
  | globalImport module field index type =>
    have grows := (Loader.note_other h (by rintro _ _ ⟨⟩)).2.2.1
    cases h
    refine ⟨(List.append_nil _).symm, ?_, grows⟩
    rw [Array.toList_push, List.map_append]
    rfl
  | segmentInfo index name alignment flags =>
    have grows := (Loader.note_other h (by rintro _ _ ⟨⟩)).2.2.1
    rw [Loader.note_segmentInfo] at h
    split at h
    · cases h
      exact .of_same grows rfl rfl rfl rfl
    · cases h
  | relocation target relocation =>
    have grows := (Loader.note_other h (by rintro _ _ ⟨⟩)).2.2.1
    rw [Loader.note_relocation] at h
    split at h
    · cases h
      exact .of_same grows rfl rfl rfl rfl
    · cases h
  | _ =>
    have grows := (Loader.note_other h (by rintro _ _ ⟨⟩)).2.2.1
    cases h
    exact .of_same grows rfl rfl rfl rfl

/-- Events add to the module what they say. -/
theorem extended_of_run {before after : Loading}
    (h : events.forM (Loader.note owner) before = .ok () after) :
    before.module.Extended events after.module := by
  have extended : before.module.Extended ([] ++ events) after.module := by
    refine forM_keeps (fun seen loading => before.module.Extended seen loading.module) h ?_
      (.refl before.module)
    intro seen event middle next step extended
    exact extended.concat (extended_of_note step)
  exact extended

/-! ## What an entry is resolved to -/

variable {flags : SymbolFlags} {name : Option String}

theorem resolve_definedFunction (defined : flags.contains .undefined = false) :
    module.resolve owner entryIndex (.function flags index name) = .ok meaning ↔
      ∃ given position, meaning = .named given (.function (.defined owner position)) ∧
        name = some given ∧ index.toNat = module.functionImports.size + position.toNat ∧
        position.toNat < module.functions.size := by
  rw [resolve_eq_ok_iff]
  constructor
  · intro resolves
    cases resolves with
    | functionReference undefined => cases defined.symm.trans undefined
    | functionDefinition _ place small => exact ⟨_, _, rfl, rfl, place, small⟩
  · rintro ⟨given, position, rfl, rfl, place, small⟩
    exact .functionDefinition defined place small

theorem resolve_definedGlobal (defined : flags.contains .undefined = false) :
    module.resolve owner entryIndex (.global flags index name) = .ok meaning ↔
      ∃ given position, meaning = .named given (.global (.defined owner position)) ∧
        name = some given ∧ index.toNat = module.globalImports.size + position.toNat ∧
        position.toNat < module.globals.size := by
  rw [resolve_eq_ok_iff]
  constructor
  · intro resolves
    cases resolves with
    | globalReference undefined => cases defined.symm.trans undefined
    | globalDefinition _ place small => exact ⟨_, _, rfl, rfl, place, small⟩
  · rintro ⟨given, position, rfl, rfl, place, small⟩
    exact .globalDefinition defined place small

theorem resolve_importedFunction (undefined : flags.contains .undefined = true) :
    module.resolve owner entryIndex (.function flags index name) = .ok meaning ↔
      ∃ found, module.functionImports[index.toNat]? = some found ∧
        meaning = .named (name.getD found.field) (.function (.undefined owner index)) := by
  rw [resolve_eq_ok_iff]
  constructor
  · intro resolves
    cases resolves with
    | functionReference _ here => exact ⟨_, here, rfl⟩
    | functionDefinition defined => cases defined.symm.trans undefined
  · rintro ⟨found, here, rfl⟩
    exact .functionReference undefined here

theorem resolve_importedGlobal (undefined : flags.contains .undefined = true) :
    module.resolve owner entryIndex (.global flags index name) = .ok meaning ↔
      ∃ found, module.globalImports[index.toNat]? = some found ∧
        meaning = .named (name.getD found.field) (.global (.undefined owner index)) := by
  rw [resolve_eq_ok_iff]
  constructor
  · intro resolves
    cases resolves with
    | globalReference _ here => exact ⟨_, here, rfl⟩
    | globalDefinition defined => cases defined.symm.trans undefined
  · rintro ⟨found, here, rfl⟩
    exact .globalReference undefined here

/-! ## Before and after -/

/-- A list is as long as before if nothing was added to it. -/
theorem length_filterMap_eq_zero_iff {β : Type} {pick : Event → Option β} :
    (events.filterMap pick).length = 0 ↔ ∀ event ∈ events, ¬ (pick event).isSome := by
  rw [List.length_eq_zero_iff, List.filterMap_eq_nil_iff]
  simp

/-- Something defined is at the place where it was, in view of more imports, if there are none. -/
theorem exists_position_iff {imports imports' added defined defined' : Nat} {given : String}
    {name : Option String} {position : UInt32} (target : UInt32 → Target)
    (named : name = some given) (place : index.toNat = imports + position.toNat)
    (small : position.toNat < defined) (more : imports' = imports + added)
    (grows : defined ≤ defined')
    (injective : ∀ position position', target position = target position' → position = position') :
    (∃ given' position', Meaning.named given (target position) = .named given' (target position') ∧
      name = some given' ∧ index.toNat = imports' + position'.toNat ∧
      position'.toNat < defined') ↔ added = 0 := by
  constructor
  · rintro ⟨_, position', same, -, place', -⟩
    obtain ⟨-, same⟩ := Meaning.named.inj same
    obtain rfl := injective position position' same
    omega
  · intro none
    exact ⟨given, position, rfl, named, by omega, by omega⟩

/-- An item that nothing but items behind it were added to stays as far as it is seen. -/
theorem exists_of_map_eq_append {α β : Type} {before after : Array α} {view : α → β}
    {more : List β} {place : Nat} {found : α}
    (h : after.toList.map view = before.toList.map view ++ more)
    (here : before[place]? = some found) :
    ∃ same, after[place]? = some same ∧ view same = view found := by
  have there := congrArg (·[place]?) h
  have small := (Array.getElem?_eq_some_iff.1 here).1
  rw [List.getElem?_append_left (by simpa using small)] at there
  simpa [here] using there

namespace Extended

variable (extended : old.Extended events new)

include extended

theorem size_functionImports : new.functionImports.size =
    old.functionImports.size + (events.filterMap Event.functionImport?).length := by
  simpa using congrArg List.length extended.functionImports

theorem size_globalImports : new.globalImports.size =
    old.globalImports.size + (events.filterMap Event.globalImport?).length := by
  simpa using congrArg List.length extended.globalImports

/-- What an entry was resolved to is what the module as a whole says of it if and only if no import
has come that moves it. -/
theorem resolve_iff (h : old.resolve owner entryIndex entry = .ok meaning) :
    new.resolve owner entryIndex entry = .ok meaning ↔
      ∀ event ∈ events, ¬ event.Displaces entry := by
  cases entry with
  | function flags index name =>
    rcases undefined : flags.contains .undefined with _ | _
    · obtain ⟨given, position, rfl, named, place, small⟩ := (resolve_definedFunction undefined).1 h
      refine (resolve_definedFunction undefined).trans ((exists_position_iff
        (fun position => .function (.defined owner position)) named place small
        extended.size_functionImports extended.grows.functions (by simp)).trans ?_)
      rw [length_filterMap_eq_zero_iff]
      simp only [Event.Displaces, undefined, true_and]
    · obtain ⟨found, here, rfl⟩ := (resolve_importedFunction undefined).1 h
      obtain ⟨same, there, bare⟩ := exists_of_map_eq_append extended.functionImports here
      have field : same.field = found.field := congrArg (·.field) bare
      refine ⟨fun _ event _ => event.not_displaces_function undefined, fun _ => ?_⟩
      exact (resolve_importedFunction undefined).2 ⟨same, there, by rw [field]⟩
  | global flags index name =>
    rcases undefined : flags.contains .undefined with _ | _
    · obtain ⟨given, position, rfl, named, place, small⟩ := (resolve_definedGlobal undefined).1 h
      refine (resolve_definedGlobal undefined).trans ((exists_position_iff
        (fun position => .global (.defined owner position)) named place small
        extended.size_globalImports extended.grows.globals (by simp)).trans ?_)
      rw [length_filterMap_eq_zero_iff]
      simp only [Event.Displaces, undefined, true_and]
    · obtain ⟨found, here, rfl⟩ := (resolve_importedGlobal undefined).1 h
      obtain ⟨same, there, bare⟩ := exists_of_map_eq_append extended.globalImports here
      have field : same.field = found.field := congrArg (·.field) bare
      refine ⟨fun _ event _ => event.not_displaces_global undefined, fun _ => ?_⟩
      exact (resolve_importedGlobal undefined).2 ⟨same, there, by rw [field]⟩
  | data flags name place =>
    have again : new.resolve owner entryIndex (.data flags name place) = .ok meaning := by
      rw [resolve_eq_ok_iff] at h ⊢
      cases h with
      | dataReference => exact .dataReference
      | dataDefinition small =>
        exact .dataDefinition (Nat.lt_of_lt_of_le small extended.grows.dataSegments)
    exact ⟨fun _ _ _ moved => moved, fun _ => again⟩
  | wholeSection => exact ⟨fun _ _ _ moved => moved, fun _ => h⟩
  | event => exact ⟨fun _ _ _ moved => moved, fun _ => h⟩
  | table => exact ⟨fun _ _ _ moved => moved, fun _ => h⟩

end Extended

/-! ## Loading -/

theorem slots_of_resolve {before after : Loading} {slot : Slot}
    (h : Loader.resolve owner index entry before = .ok slot after) :
    after.module.slots = before.module.slots := by
  rcases Loader.module_of_resolve h with same | ⟨target, id, same⟩
  · rw [same]
  · rw [same, (Loader.nameImport_grows before.module target id).1]

/-- A slot that was given stays what it is. -/
theorem slot_of_run {before after : Loading} {place : Nat} {slot : Slot}
    (h : events.forM (Loader.note owner) before = .ok () after)
    (here : before.module.slots[place]? = some slot) : after.module.slots[place]? = some slot := by
  refine forM_preserves (fun loading => loading.module.slots[place]? = some slot) h ?_ here
  intro event loading next step here
  rcases Loader.note_cases step with ⟨index, entry, new, middle, rfl, one, rfl⟩ | other
  · have small := (Array.getElem?_eq_some_iff.1 here).1
    show (middle.module.slots.push new)[place]? = _
    rw [slots_of_resolve one, Array.getElem?_push, if_neg (Nat.ne_of_lt small), here]
  · rw [(Loader.note_other step other).2.1]
    exact here

/-- Entry `index` of a symbol table comes after the events `before` of its file. It is resolved to
`meaning` in view of what was loaded by then, and the module `whole` has the symbol that is
registered for it. -/
structure ResolvedAfter (whole : ObjectModule) (owner : ModuleId) (first : Loading)
    (before : List Event) (index : UInt32) (entry : SymbolEntry) (loading : Loading)
    (meaning : Meaning) : Prop where
  run : before.forM (Loader.note owner) first = .ok () loading
  resolved : loading.module.resolve owner index entry = .ok meaning
  slot : ∃ slot, whole.slots[loading.module.slots.size]? = some slot ∧
    (meaning = .unnamed slot ∨ ∃ name target id symbols, meaning = .named name target ∧
      slot = .symbol id ∧ loading.symbols.register (Loader.registration
        ⟨name, entry.flags, loading.module.name, target⟩) = .ok (id, symbols))

theorem ResolvedAfter.unique {whole : ObjectModule} {first loading loading' : Loading}
    {before : List Event} {meaning' : Meaning}
    (one : whole.ResolvedAfter owner first before index entry loading meaning)
    (two : whole.ResolvedAfter owner first before index entry loading' meaning') :
    loading = loading' ∧ meaning = meaning' := by
  obtain ⟨-, rfl⟩ := EStateM.Result.ok.inj (one.run.symm.trans two.run)
  exact ⟨rfl, Except.ok.inj (one.resolved.symm.trans two.resolved)⟩

/-- What an entry for a function or a global was resolved to: an import of the module `whole`, or
something that this defines, as far behind as the index is behind the imports of `old`. -/
structure Names (old whole : ObjectModule) (owner : ModuleId) (entry : SymbolEntry)
    (meaning : Meaning) : Prop where
  importedFunction : ∀ flags index name, entry = .function flags index name →
    flags.contains .undefined = true → ∃ found,
      whole.functionImports[index.toNat]? = some found ∧
      meaning = .named (name.getD found.field) (.function (.undefined owner index))
  definedFunction : ∀ flags index name, entry = .function flags index name →
    flags.contains .undefined = false → ∃ given position,
      meaning = .named given (.function (.defined owner position)) ∧ name = some given ∧
      index.toNat = old.functionImports.size + position.toNat ∧
      position.toNat < whole.functions.size
  importedGlobal : ∀ flags index name, entry = .global flags index name →
    flags.contains .undefined = true → ∃ found,
      whole.globalImports[index.toNat]? = some found ∧
      meaning = .named (name.getD found.field) (.global (.undefined owner index))
  definedGlobal : ∀ flags index name, entry = .global flags index name →
    flags.contains .undefined = false → ∃ given position,
      meaning = .named given (.global (.defined owner position)) ∧ name = some given ∧
      index.toNat = old.globalImports.size + position.toNat ∧
      position.toNat < whole.globals.size

theorem Extended.names (extended : old.Extended events new)
    (h : old.resolve owner entryIndex entry = .ok meaning) :
    old.Names new owner entry meaning where
  importedFunction := by
    rintro flags index name rfl undefined
    exact (resolve_importedFunction undefined).1
      ((extended.resolve_iff h).2 fun event _ => event.not_displaces_function undefined)
  definedFunction := by
    rintro flags index name rfl defined
    obtain ⟨given, position, same, named, place, small⟩ := (resolve_definedFunction defined).1 h
    exact ⟨given, position, same, named, place, Nat.lt_of_lt_of_le small extended.grows.functions⟩
  importedGlobal := by
    rintro flags index name rfl undefined
    exact (resolve_importedGlobal undefined).1
      ((extended.resolve_iff h).2 fun event _ => event.not_displaces_global undefined)
  definedGlobal := by
    rintro flags index name rfl defined
    obtain ⟨given, position, same, named, place, small⟩ := (resolve_definedGlobal defined).1 h
    exact ⟨given, position, same, named, place, Nat.lt_of_lt_of_le small extended.grows.globals⟩

/-- An entry that was accepted was resolved in view of the events before it, and the whole module is
what was loaded by then with the events after it. -/
theorem exists_resolvedAfter {first last : Loading} {before after : List Event}
    (h : (before ++ .symbol index entry :: after).forM (Loader.note owner) first = .ok () last) :
    ∃ loading meaning,
      last.module.ResolvedAfter owner first before index entry loading meaning ∧
      loading.module.Extended (.symbol index entry :: after) last.module := by
  obtain ⟨loading, run, rest⟩ := forM_append_eq_ok.1 h
  have extended := extended_of_run rest
  have rest : (Loader.note owner (.symbol index entry) >>= fun _ =>
    after.forM (Loader.note owner)) loading = .ok () last := rest
  obtain ⟨⟨⟩, next, step, later⟩ := state_bind_eq_ok.1 rest
  obtain ⟨slot, middle, one, step⟩ := state_bind_eq_ok.1 step
  cases step
  have here : last.module.slots[loading.module.slots.size]? = some slot := by
    refine slot_of_run later ?_
    show (middle.module.slots.push slot)[_]? = _
    rw [slots_of_resolve one, Array.getElem?_push_size]
  rcases Loader.resolve_cases one with ⟨resolved, -⟩ | ⟨name, target, id, resolved, rfl, -, call⟩
  · exact ⟨loading, _, ⟨run, resolved, slot, here, .inl rfl⟩, extended⟩
  · refine ⟨loading, _, ⟨run, resolved, .symbol id, here, .inr ?_⟩, extended⟩
    exact ⟨name, target, id, _, rfl, rfl, call⟩

/-- Every entry of the symbol table of a module that was loaded is resolved in view of what comes
before it. A reference to a function or a global is to an import that the whole module has. What is
defined is something that the whole module defines, counted from the imports before the entry, and
the whole module says the same of it if no import of its kind follows. This holds of all entries if
such imports never follow. -/
theorem load_resolves {owner : ModuleId} {name : String} {bytes : Bytes}
    {start symbols : SymbolTable} {module : ObjectModule}
    (h : ObjectModule.load owner name bytes start = .ok module symbols) :
    (∀ before index entry after,
      (Transcript.ofBytes bytes).events = before ++ .symbol index entry :: after →
      ∃ loading meaning, module.ResolvedAfter owner { module := { name, bytes }, symbols := start }
          before index entry loading meaning ∧
        loading.module.Extended (.symbol index entry :: after) module ∧
        loading.module.Names module owner entry meaning ∧
        (module.resolve owner index entry = .ok meaning ↔
          ∀ event ∈ after, ¬ event.Displaces entry)) ∧
    ((∀ before index entry after,
      (Transcript.ofBytes bytes).events = before ++ .symbol index entry :: after →
      ∃ loading meaning, module.ResolvedAfter owner { module := { name, bytes }, symbols := start }
          before index entry loading meaning ∧
        module.resolve owner index entry = .ok meaning) ↔
      Event.InOrder (Transcript.ofBytes bytes).events) := by
  obtain ⟨-, last, run, rfl, rfl⟩ := load_run h
  have each (before : List Event) (index : UInt32) (entry : SymbolEntry) (after : List Event)
      (split : (Transcript.ofBytes bytes).events = before ++ .symbol index entry :: after) :
      ∃ loading meaning, last.module.ResolvedAfter owner
          { module := { name, bytes }, symbols := start } before index entry loading meaning ∧
        loading.module.Extended (.symbol index entry :: after) last.module ∧
        loading.module.Names last.module owner entry meaning ∧
        (last.module.resolve owner index entry = .ok meaning ↔
          ∀ event ∈ after, ¬ event.Displaces entry) := by
    rw [split] at run
    obtain ⟨loading, meaning, resolved, extended⟩ := exists_resolvedAfter run
    refine ⟨loading, meaning, resolved, extended, extended.names resolved.resolved, ?_⟩
    rw [extended.resolve_iff resolved.resolved, List.forall_mem_cons,
      and_iff_right (Event.not_displaces_symbol entry entry)]
  refine ⟨each, fun agrees => ?_, fun order => ?_⟩
  · intro before index entry after split
    obtain ⟨loading, meaning, resolved, -, -, agree_iff⟩ := each before index entry after split
    obtain ⟨loading', meaning', resolved', agree⟩ := agrees before index entry after split
    obtain ⟨rfl, rfl⟩ := resolved.unique resolved'
    exact agree_iff.1 agree
  · intro before index entry after split
    obtain ⟨loading, meaning, resolved, -, -, agree_iff⟩ := each before index entry after split
    exact ⟨loading, meaning, resolved, agree_iff.2 (order before index entry after split)⟩

end ObjectModule

/-! ## Imports before and after the symbol table -/

/-- How many functions a file imports and what it says of an entry, if it is loaded. -/
def loadedFacts? (bytes : Bytes) (entry : SymbolEntry) : Option (Nat × Except Defect Meaning) :=
  match ObjectModule.load 0 "input.o" bytes .empty with
  | .ok module _ => some (module.functionImports.size, module.resolve 0 0 entry)
  | .error _ _ => none

theorem exists_load_of_loadedFacts? {bytes : Bytes} {entry : SymbolEntry}
    {facts : Nat × Except Defect Meaning}
    (h : loadedFacts? bytes entry = some facts) :
    ∃ module symbols, ObjectModule.load 0 "input.o" bytes .empty = .ok module symbols ∧
      module.functionImports.size = facts.1 ∧ module.resolve 0 0 entry = facts.2 := by
  unfold loadedFacts? at h
  split at h
  · next module symbols loaded =>
    cases h
    exact ⟨module, symbols, loaded, rfl, rfl⟩
  · cases h

/-- A file with an import before its symbol table, which names the function behind it. -/
def early : Bytes :=
  [0, 97, 115, 109, 1, 0, 0, 0, 1, 4, 1, 96, 0, 0, 2, 9, 1, 3, 101, 110, 118, 1, 103, 0, 0, 3, 2, 1,
   0, 10, 10, 1, 8, 0, 16, 128, 128, 128, 128, 0, 11, 0, 20, 7, 108, 105, 110, 107, 105, 110, 103,
   2, 8, 9, 2, 0, 0, 1, 1, 102, 0, 16, 0, 0, 16, 10, 114, 101, 108, 111, 99, 46, 67, 79, 68, 69, 3,
   1, 0, 4, 1]

/-- The entry is resolved to the first function that is defined, and the whole module says the
same. -/
theorem load_early_resolves :
    ∃ module symbols loading meaning,
      ObjectModule.load 0 "input.o" early .empty = .ok module symbols ∧
      module.ResolvedAfter 0 { module := { name := "input.o", bytes := early }, symbols := .empty }
        ((Transcript.ofBytes early).events.take 7) 0 (.function ⟨0⟩ 1 (some "f")) loading meaning ∧
      meaning = .named "f" (.function (.defined 0 0)) ∧
      module.resolve 0 0 (.function ⟨0⟩ 1 (some "f")) = .ok meaning := by
  have facts : loadedFacts? early (.function ⟨0⟩ 1 (some "f")) =
      some (1, .ok (.named "f" (.function (.defined 0 0)))) := by decide +kernel
  have split : (Transcript.ofBytes early).events = (Transcript.ofBytes early).events.take 7 ++
      .symbol 0 (.function ⟨0⟩ 1 (some "f")) :: (Transcript.ofBytes early).events.drop 8 := by
    decide +kernel
  have order : ∀ event ∈ (Transcript.ofBytes early).events.drop 8,
      ¬ event.Displaces (.function ⟨0⟩ 1 (some "f")) := by decide +kernel
  obtain ⟨module, symbols, loaded, -, resolved⟩ := exists_load_of_loadedFacts? facts
  obtain ⟨loading, meaning, after, -, -, agree_iff⟩ :=
    (ObjectModule.load_resolves loaded).1 _ _ _ _ split
  have agree := agree_iff.2 order
  have same := Except.ok.inj (agree.symm.trans resolved)
  exact ⟨module, symbols, loading, meaning, loaded, after, same, agree⟩

/-- A file with an import behind its symbol table, which names the first function. -/
def late : Bytes :=
  [0, 97, 115, 109, 1, 0, 0, 0, 1, 4, 1, 96, 0, 0, 3, 2, 1, 0, 10, 4, 1, 2, 0, 11, 0, 17, 7, 108,
   105, 110, 107, 105, 110, 103, 2, 8, 6, 1, 0, 0, 0, 1, 102, 2, 9, 1, 3, 101, 110, 118, 1, 103, 0,
   0]

/-- It is loaded, and the entry is resolved to the function that is defined. In the whole module its
index is that of the import. -/
theorem load_late :
    ∃ module symbols loading meaning,
      ObjectModule.load 0 "input.o" late .empty = .ok module symbols ∧
      module.ResolvedAfter 0 { module := { name := "input.o", bytes := late }, symbols := .empty }
        ((Transcript.ofBytes late).events.take 5) 0 (.function ⟨0⟩ 0 (some "f")) loading meaning ∧
      meaning = .named "f" (.function (.defined 0 0)) ∧ module.functionImports.size = 1 ∧
      module.resolve 0 0 (.function ⟨0⟩ 0 (some "f")) = .error (.invalidFunctionIndex 0) := by
  have facts : loadedFacts? late (.function ⟨0⟩ 0 (some "f")) =
      some (1, .error (.invalidFunctionIndex 0)) := by decide +kernel
  have split : (Transcript.ofBytes late).events = (Transcript.ofBytes late).events.take 5 ++
      .symbol 0 (.function ⟨0⟩ 0 (some "f")) :: (Transcript.ofBytes late).events.drop 6 := by
    decide +kernel
  obtain ⟨module, symbols, loaded, imports, refused⟩ := exists_load_of_loadedFacts? facts
  obtain ⟨-, last, run, rfl, -⟩ := ObjectModule.load_run loaded
  rw [split] at run
  obtain ⟨loading, meaning, after, extended⟩ := ObjectModule.exists_resolvedAfter run
  obtain ⟨given, position, rfl, named, place, -⟩ :=
    (extended.names after.resolved).definedFunction ⟨0⟩ 0 (some "f") rfl rfl
  cases named
  have first : position = 0 := by
    refine UInt32.toNat_inj.1 ?_
    have zero : (0 : UInt32).toNat = 0 := rfl
    omega
  rw [first] at after
  exact ⟨last.module, symbols, loading, _, loaded, after, rfl, imports, refused⟩

end StaticLink
