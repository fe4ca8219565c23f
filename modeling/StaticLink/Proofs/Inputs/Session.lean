import StaticLink.Link
import StaticLink.Proofs.Inputs.Loading

/-!
# What a session knows of its inputs

* `Session.Sound`: every input has a module that has read the input's symbol table and named its
  imports by it, and every symbol is in bounds.
* `Session.addAll_sound`: it holds of the session of some inputs of which none is refused.
-/

namespace StaticLink

/-- The entries of the symbol table in the file `bytes`. -/
def symbolEntries (bytes : Bytes) : List SymbolEntry := entriesOf (Transcript.ofBytes bytes).events

/-- The session holds one module for each input, in their order. -/
structure Session.Sound (inputs : List (String × Bytes)) (session : Session) : Prop where
  size : session.modules.length = inputs.length
  registered : SymbolTable.ReachedBy (Target.Within session.modules) .empty session.symbols
  reads : ∀ (owner : ModuleId) (name : String) (bytes : Bytes) (module : ObjectModule),
    inputs[owner]? = some (name, bytes) → session.modules[owner]? = some module →
    module.Reads session.symbols (symbolEntries bytes)
  imports : ∀ (owner : ModuleId) (name : String) (bytes : Bytes) (module : ObjectModule),
    inputs[owner]? = some (name, bytes) → session.modules[owner]? = some module →
    module.NamesImports (symbolEntries bytes)

namespace Session

variable {inputs : List (String × Bytes)} {before after : Session} {name : String} {bytes : Bytes}

/-- An input that is accepted adds a module to the session. -/
theorem add_eq_ok (h : discard (Session.add name bytes) before = .ok () after) :
    ∃ module, ObjectModule.load before.modules.length name bytes before.symbols =
        .ok module after.symbols ∧ after.modules = before.modules ++ [module] := by
  obtain ⟨owner, h⟩ := discard_eq_ok.1 h
  unfold Session.add at h
  dsimp only at h
  split at h
  · next module symbols loaded =>
    cases h
    exact ⟨module, loaded, rfl⟩
  · cases h

theorem sound_empty : Sound [] .empty where
  size := rfl
  registered := .refl _ .empty
  reads := by simp
  imports := by simp

theorem Sound.add (sound : Sound inputs before)
    (h : discard (Session.add name bytes) before = .ok () after) :
    Sound (inputs ++ [(name, bytes)]) after := by
  obtain ⟨module, loaded, modules⟩ := add_eq_ok h
  have wf := (sound.registered.later SymbolTable.wellFormed_empty).1
  obtain ⟨registered, reads, imports⟩ := ObjectModule.load_sound wf loaded
  have all := (sound.registered.mono fun _ within => within.append [module]).trans registered
  rw [← modules] at all
  refine ⟨?_, all, ?_, ?_⟩
  · rw [modules, List.length_append, List.length_append, sound.size]
    rfl
  · intro other name' bytes' found input here
    rw [modules] at here
    rcases getElem?_concat_pair sound.size here input with ⟨stands, earlier⟩ | ⟨rfl, same⟩
    · exact (sound.reads other name' bytes' found earlier stands).later rfl (.refl found)
        (registered.later wf).2
    · cases same
      exact reads
  · intro other name' bytes' found input here
    rw [modules] at here
    rcases getElem?_concat_pair sound.size here input with ⟨stands, earlier⟩ | ⟨rfl, same⟩
    · exact sound.imports other name' bytes' found earlier stands
    · cases same
      exact imports

/-- The session of some inputs of which none is refused. -/
theorem addAll_sound (h : addAll inputs .empty = .ok () after) : Sound inputs after := by
  have sound : Sound ([] ++ inputs) after := by
    refine forM_keeps Sound h ?_ sound_empty
    rintro seen ⟨name, bytes⟩ before after step sound
    exact sound.add step
  rw [List.nil_append] at sound
  exact sound

/-- Adding some inputs and then others is adding all of them. -/
theorem addAll_append {more : List (String × Bytes)} (h : addAll inputs before = .ok () after) :
    addAll (inputs ++ more) before = addAll more after := by
  have split : addAll (inputs ++ more) = addAll inputs >>= fun _ => addAll more := List.forM_append
  rw [split]
  show EStateM.bind (addAll inputs) (fun _ => addAll more) before = _
  unfold EStateM.bind
  rw [h]

end Session

end StaticLink
