import StaticLink.Link
import StaticLink.Proofs.Inputs.Loading
import StaticLink.Proofs.SymbolTable.Progress

/-!
# What a refused input leaves behind

An input registers its symbols while it is read. When it is refused in the end, its module is not
added, but what was registered by then remains.

* `SymbolEntry.Registers`: the registration that an entry of a symbol table stands for.
* `Session.Refusal`: how far an input came, and what it had registered by then.
* `Session.add_refused`: a refused input leaves the session as it was exactly if all of this was
  known before.
-/

namespace StaticLink

/-- The entries of a symbol table that have symbols. -/
def namingEntries (events : List Event) : List SymbolEntry :=
  (entriesOf events).filter (·.targetKind?.isSome)

/-- The entry is registered by this call, in the name of input `owner`, which messages call
`context`. -/
structure SymbolEntry.Registers (owner : ModuleId) (context : String) (entry : SymbolEntry)
    (call : SymbolTable.Registration) : Prop where
  kind : entry.targetKind? = some call.symbol.target.kind
  flags : call.symbol.flags = entry.flags
  context : call.symbol.context = context
  owner : ∀ other, call.symbol.target.owner? = some other → other = owner
  binding : call = Loader.registration call.symbol

namespace Loader

variable {owner : ModuleId} {before after : Loading} {event : Event} {index : UInt32}
  {entry : SymbolEntry} {slot : Slot} {error : Error}

/-! ## One event -/

/-- An entry that is accepted is registered, if it has a symbol. -/
theorem registers_of_resolve (h : resolve owner index entry before = .ok slot after) :
    after.module.name = before.module.name ∧
      (entry.targetKind? = none ∧ after.symbols = before.symbols ∨
        ∃ call id, entry.Registers owner before.module.name call ∧
          before.symbols.register call = .ok (id, after.symbols)) := by
  rcases resolve_cases h with ⟨resolved, rfl⟩ | ⟨name, target, id, resolved, -, named, call⟩
  · exact ⟨rfl, .inl ⟨(ObjectModule.means_of_resolve resolved).2.1, rfl⟩⟩
  · obtain ⟨-, ⟨kind, -⟩, -, owns⟩ := ObjectModule.means_of_resolve resolved
    refine ⟨?_, .inr ⟨_, id, ⟨?_, ?_, ?_, ?_, ?_⟩, call⟩⟩
    · rw [named]
      unfold ObjectModule.nameImport
      split <;> rfl
    all_goals rw [symbol_registration]
    · exact kind
    · exact owns

/-- No event changes the name of the module. -/
theorem name_of_note (h : note owner event before = .ok () after) :
    after.module.name = before.module.name := by
  cases event with
  | symbol index entry =>
    obtain ⟨slot, middle, one, h⟩ := state_bind_eq_ok.1 h
    cases h
    exact (registers_of_resolve one).1
  | segmentInfo =>
    rw [note_segmentInfo] at h
    split at h
    · cases h
      rfl
    · cases h
  | relocation =>
    rw [note_relocation] at h
    split at h
    · cases h
      rfl
    · cases h
  | _ =>
    cases h
    rfl

/-- An event that is refused changes no symbols. -/
theorem symbols_of_note_error (h : note owner event before = .error error after) :
    after.symbols = before.symbols := by
  cases event with
  | symbol index entry =>
    rcases state_bind_eq_error.1 h with h | ⟨slot, middle, -, h⟩
    · rcases state_bind_eq_error.1 h with h | ⟨_, _, read, h⟩
      · cases h
      · cases read
        rcases resolved : before.module.resolve owner index entry with defect | meaning
        · rw [resolved] at h
          cases h
          rfl
        rw [resolved] at h
        cases meaning with
        | tag =>
          cases h
          rfl
        | unnamed other => cases h
        | named name target =>
          rcases state_bind_eq_error.1 h with h | ⟨id, middle, -, h⟩
          · rw [register_eq_error h]
          · cases h
    · cases h
  | segmentInfo =>
    rw [note_segmentInfo] at h
    split at h
    · cases h
    · cases h
      rfl
  | relocation =>
    rw [note_relocation] at h
    split at h
    · cases h
    · cases h
      rfl
  | _ => cases h

end Loader

/-! ## All events -/

theorem namingEntries_append_symbol (seen : List Event) (index : UInt32) (entry : SymbolEntry) :
    namingEntries (seen ++ [.symbol index entry]) =
      namingEntries seen ++ if entry.targetKind?.isSome then [entry] else [] := by
  rw [namingEntries, entriesOf_append_symbol, List.filter_append, namingEntries,
    List.filter_singleton]
  cases entry.targetKind?.isSome <;> rfl

/-- How far the loading of an input has come after some events: what was registered since `start`
are the symbols of the entries so far. -/
structure Loading.Registering (owner : ModuleId) (context : String) (start : SymbolTable)
    (seen : List Event) (calls : List SymbolTable.Registration) (loading : Loading) : Prop where
  name : loading.module.name = context
  entries : List.Forall₂ (SymbolEntry.Registers owner context) (namingEntries seen) calls
  accepted : start.acceptAll calls = .ok loading.symbols

namespace Loading.Registering

variable {owner : ModuleId} {context : String} {start : SymbolTable} {seen : List Event}
  {calls : List SymbolTable.Registration} {before after : Loading} {event : Event}

/-- Every event that is accepted adds at most one registration. -/
theorem note (registering : before.Registering owner context start seen calls)
    (h : Loader.note owner event before = .ok () after) :
    ∃ more, after.Registering owner context start (seen ++ [event]) more := by
  have name := (Loader.name_of_note h).trans registering.name
  rcases Loader.note_cases h with ⟨index, entry, slot, middle, rfl, one, rfl⟩ | other
  · have naming := namingEntries_append_symbol seen index entry
    rcases (Loader.registers_of_resolve one).2 with ⟨none, same⟩ | ⟨call, id, registers, accepted⟩
    · refine ⟨calls, name, ?_, ?_⟩
      · rw [naming, none]
        simpa using registering.entries
      · rw [registering.accepted]
        exact congrArg Except.ok same.symm
    · rw [registering.name] at registers
      refine ⟨calls ++ [call], name, ?_, ?_⟩
      · rw [naming, registers.kind]
        exact List.rel_append registering.entries (.cons registers .nil)
      · refine SymbolTable.acceptAll_append registering.accepted ?_
        exact SymbolTable.acceptAll_cons_eq_ok.2 ⟨id, _, accepted, rfl⟩
  · refine ⟨calls, name, ?_, ?_⟩
    · rw [namingEntries, entriesOf_append_other seen other]
      exact registering.entries
    · rw [registering.accepted, (Loader.note_other h other).1]

end Loading.Registering

/-- An input that is refused came as far as the events `seen`, and had registered `calls` by then:
the symbols of the entries among them. It is refused for the next event or, after all of them, for
the fault of its file. -/
structure Session.Refusal (name : String) (bytes : Bytes) (before after : Session) (error : Error)
    (seen : List Event) (calls : List SymbolTable.Registration) : Prop where
  modules : after.modules = before.modules
  stops : ∃ last cause, error = .input name cause ∧
    seen.forM (Loader.note before.modules.length)
      { module := { name, bytes }, symbols := before.symbols } = .ok () last ∧
    ((∃ event rest stop, (Transcript.ofBytes bytes).events = seen ++ event :: rest ∧
        Loader.note before.modules.length event last = .error cause stop) ∨
      ∃ fault, (Transcript.ofBytes bytes).events = seen ∧
        (Transcript.ofBytes bytes).fault = some fault ∧ cause = .malformed fault)
  entries : List.Forall₂ (SymbolEntry.Registers before.modules.length name) (namingEntries seen)
    calls
  accepted : before.symbols.acceptAll calls = .ok after.symbols

/-- Where the loading of a file stops, and with which symbols. -/
theorem ObjectModule.load_eq_error {owner : ModuleId} {name : String} {bytes : Bytes}
    {start symbols : SymbolTable} {cause : Error}
    (h : ObjectModule.load owner name bytes start = .error cause symbols) :
    ∃ seen last, seen.forM (Loader.note owner) { module := { name, bytes }, symbols := start } =
        .ok () last ∧ symbols = last.symbols ∧
      ((∃ event rest stop, (Transcript.ofBytes bytes).events = seen ++ event :: rest ∧
          Loader.note owner event last = .error cause stop) ∨
        ∃ fault, (Transcript.ofBytes bytes).events = seen ∧
          (Transcript.ofBytes bytes).fault = some fault ∧ cause = .malformed fault) := by
  unfold ObjectModule.load at h
  split at h
  · cases h
  · next error loading all =>
    cases h
    rcases state_bind_eq_error.1 all with early | ⟨⟨⟩, last, run, late⟩
    · obtain ⟨seen, event, rest, last, split, run, refused⟩ := forM_eq_error early
      exact ⟨seen, last, run, Loader.symbols_of_note_error refused,
        .inl ⟨event, rest, _, split, refused⟩⟩
    · rcases ends : (Transcript.ofBytes bytes).fault with _ | fault
      · rw [ends] at late
        cases late
      · rw [ends] at late
        cases late
        exact ⟨_, _, run, rfl, .inr ⟨fault, rfl, rfl, rfl⟩⟩

/-- An input that is refused adds no module. It leaves the session as it was exactly if each of the
symbols that it had registered by then is shared with other inputs and adds nothing to what was
known of its name. -/
theorem Session.add_refused {name : String} {bytes : Bytes} {before after : Session} {error : Error}
    (refused : Session.add name bytes before = .error error after) :
    ∃ seen calls, Session.Refusal name bytes before after error seen calls ∧
      (after = before ↔ ∀ call ∈ calls, before.symbols.Silent call) := by
  unfold Session.add at refused
  dsimp only at refused
  split at refused
  · cases refused
  · next cause symbols loaded =>
    cases refused
    obtain ⟨seen, last, run, rfl, stops⟩ := ObjectModule.load_eq_error loaded
    let Registered (seen : List Event) (loading : Loading) : Prop :=
      ∃ calls, loading.Registering before.modules.length name before.symbols seen calls
    have first : Registered [] { module := { name, bytes }, symbols := before.symbols } :=
      ⟨[], rfl, .nil, rfl⟩
    have registered : Registered ([] ++ seen) last := by
      refine forM_keeps Registered run ?_ first
      rintro seen event before after step ⟨calls, registering⟩
      exact registering.note step
    obtain ⟨calls, registering⟩ := registered
    refine ⟨seen, calls, ⟨rfl, ⟨last, cause, rfl, run, stops⟩, registering.entries,
      registering.accepted⟩, ?_⟩
    rw [← SymbolTable.acceptAll_eq_self_iff registering.accepted]
    constructor
    · intro same
      exact congrArg Session.symbols same
    · intro same
      rw [same]

/-- The session that a refused input leaves behind, and the error. -/
def Session.refused? (name : String) (bytes : Bytes) (session : Session) :
    Option (Error × Session) :=
  match Session.add name bytes session with
  | .ok _ _ => none
  | .error error after => some (error, after)

theorem Session.refused?_eq_some {name : String} {bytes : Bytes} {before after : Session}
    {error : Error} : Session.refused? name bytes before = some (error, after) ↔
      Session.add name bytes before = .error error after := by
  unfold Session.refused?
  rcases Session.add name bytes before with ⟨id, last⟩ | ⟨cause, last⟩ <;> simp

/-- What is linked when more inputs are added to a session. -/
def Session.linkWith (inputs : List (String × Bytes)) (options : Options) (session : Session) :
    Except Error Bytes :=
  match Session.addAll inputs session with
  | .ok _ last => last.link options
  | .error error _ => .error error

/-- An input with a function, and another one with a weak function of this name that ends in a
section of no kind. -/
def echoed : (String × Bytes) × (String × Bytes) :=
  (("callee.o",
      [0, 97, 115, 109, 1, 0, 0, 0, 1, 4, 1, 96, 0, 0, 3, 2, 1, 0, 10, 4, 1, 2, 0, 11, 0, 17, 7,
       108, 105, 110, 107, 105, 110, 103, 2, 8, 6, 1, 0, 0, 0, 1, 102]),
    ("echo.o",
      [0, 97, 115, 109, 1, 0, 0, 0, 1, 4, 1, 96, 0, 0, 3, 2, 1, 0, 10, 4, 1, 2, 0, 11, 0, 17, 7,
       108, 105, 110, 107, 105, 110, 103, 2, 8, 6, 1, 0, 1, 0, 1, 102, 99]))

/-- The second of these inputs is refused and leaves nothing behind, since the function of the first
is the one that counts. -/
theorem add_refused_echo : ∃ before after error seen calls,
    Session.addAll [echoed.1] .empty = .ok () before ∧
      Session.add echoed.2.1 echoed.2.2 before = .error error after ∧
      Session.Refusal echoed.2.1 echoed.2.2 before after error seen calls ∧ after = before ∧
      ∀ call ∈ calls, before.symbols.Silent call := by
  have facts : (match Session.addAll [echoed.1] .empty with
      | .ok _ before => (Session.refused? echoed.2.1 echoed.2.2 before).map fun (_, after) =>
          decide (after = before)
      | .error _ _ => none) = some true := by decide +kernel
  rcases added : Session.addAll [echoed.1] .empty with ⟨⟨⟩, before⟩ | ⟨error, before⟩
  · rw [added] at facts
    obtain ⟨⟨error, after⟩, left, same⟩ := Option.map_eq_some_iff.1 facts
    have same : after = before := of_decide_eq_true same
    have refused := Session.refused?_eq_some.1 left
    obtain ⟨seen, calls, refusal, unchanged⟩ := Session.add_refused refused
    exact ⟨before, after, error, seen, calls, rfl, refused, refusal, same, unchanged.1 same⟩
  · rw [added] at facts
    cases facts

/-- An input that is refused for a section of no kind at its end, after a function has been
registered. -/
def refused : String × Bytes :=
  ("refused.o",
    [0, 97, 115, 109, 1, 0, 0, 0, 1, 4, 1, 96, 0, 0, 3, 2, 1, 0, 10, 4, 1, 2, 0, 11, 0, 17, 7,
     108, 105, 110, 107, 105, 110, 103, 2, 8, 6, 1, 0, 0, 0, 1, 102, 99])

/-- An input that imports a function of this name and calls it from another function. -/
def importer : String × Bytes :=
  ("importer.o",
    [0, 97, 115, 109, 1, 0, 0, 0, 1, 4, 1, 96, 0, 0, 2, 9, 1, 3, 101, 110, 118, 1, 102, 0, 0, 3,
     2, 1, 0, 10, 10, 1, 8, 0, 16, 128, 128, 128, 128, 0, 11, 0, 20, 7, 108, 105, 110, 107, 105,
     110, 103, 2, 8, 9, 2, 0, 16, 0, 0, 0, 1, 1, 103, 0, 16, 10, 114, 101, 108, 111, 99, 46, 67,
     79, 68, 69, 3, 1, 0, 4, 0])

/-- What becomes of the input by itself: the call goes to the import. -/
def linkedImporter : Bytes :=
  [0, 97, 115, 109, 1, 0, 0, 0, 1, 132, 128, 128, 128, 0, 1, 96, 0, 0, 2, 137, 128, 128, 128, 0,
   1, 3, 101, 110, 118, 1, 102, 0, 0, 3, 130, 128, 128, 128, 0, 1, 0, 4, 133, 128, 128, 128, 0, 1,
   112, 1, 1, 1, 5, 131, 128, 128, 128, 0, 1, 0, 2, 6, 136, 128, 128, 128, 0, 1, 127, 1, 65, 128,
   128, 8, 11, 7, 138, 128, 128, 128, 0, 1, 6, 109, 101, 109, 111, 114, 121, 2, 0, 10, 138, 128,
   128, 128, 0, 1, 8, 0, 16, 128, 128, 128, 128, 0, 11]

/-- What becomes of it after the refused one: there is no import, and the function calls itself. -/
def linkedImporterAfter : Bytes :=
  [0, 97, 115, 109, 1, 0, 0, 0, 1, 132, 128, 128, 128, 0, 1, 96, 0, 0, 3, 130, 128, 128, 128, 0,
   1, 0, 4, 133, 128, 128, 128, 0, 1, 112, 1, 1, 1, 5, 131, 128, 128, 128, 0, 1, 0, 2, 6, 136,
   128, 128, 128, 0, 1, 127, 1, 65, 128, 128, 8, 11, 7, 138, 128, 128, 128, 0, 1, 6, 109, 101,
   109, 111, 114, 121, 2, 0, 10, 138, 128, 128, 128, 0, 1, 8, 0, 16, 128, 128, 128, 128, 0, 11]

/-- A refused input leaves its symbols behind, and they lead into the input that comes next. -/
theorem refused_importer : ∃ error after,
    Session.add refused.1 refused.2 .empty = .error error after ∧ after ≠ .empty ∧
      Session.linkWith [importer] {} .empty = .ok linkedImporter ∧
      Session.linkWith [importer] {} after = .ok linkedImporterAfter ∧
      linkedImporterAfter ≠ linkedImporter := by
  have facts : ((Session.refused? refused.1 refused.2 .empty).map fun (_, after) =>
      (decide (after = .empty), Session.linkWith [importer] {} after)) =
        some (false, .ok linkedImporterAfter) := by decide +kernel
  obtain ⟨⟨error, after⟩, left, same⟩ := Option.map_eq_some_iff.1 facts
  obtain ⟨changed, linked⟩ := Prod.mk.inj same
  exact ⟨error, after, Session.refused?_eq_some.1 left, of_decide_eq_false changed,
    by decide +kernel, linked, by decide +kernel⟩

end StaticLink
