import StaticLink.Proofs.Inputs.Session
import StaticLink.Proofs.Output.Sections
import StaticLink.Proofs.SymbolTable.Completion

/-!
# What a program knows of its inputs

* `Program.Sound`: as `Session.Sound`, for the symbol table that the linker has completed.
* `Program.sound_of_ofInputs`: it holds of the program of some inputs.
-/

namespace StaticLink

/-- The program holds one module for each input, in their order. Each has read the input's symbol
table and named its imports by it, and every symbol is in bounds. -/
structure Program.Sound (inputs : List (String × Bytes)) (program : Program) : Prop where
  size : program.modules.length = inputs.length
  registered : SymbolTable.ReachedBy (Target.Within program.modules) .empty program.symbols
  reads : ∀ (owner : ModuleId) (name : String) (bytes : Bytes) (module : ObjectModule),
    inputs[owner]? = some (name, bytes) → program.modules[owner]? = some module →
    module.Reads program.symbols (symbolEntries bytes)
  imports : ∀ (owner : ModuleId) (name : String) (bytes : Bytes) (module : ObjectModule),
    inputs[owner]? = some (name, bytes) → program.modules[owner]? = some module →
    module.NamesImports (symbolEntries bytes)

namespace Program

variable {inputs : List (String × Bytes)} {options : Options} {program : Program}

/-- What the linker supplies belongs to no module. -/
theorem within_of_supplied {modules : List ObjectModule} {target : Target}
    (supplied : SymbolTable.Supplied target) : target.Within modules := by
  intro owner owns
  have none : target.owner? = none := by
    unfold SymbolTable.Supplied Target.isSynthesized at supplied
    split at supplied
    · rfl
    · rfl
    · rfl
    · cases supplied
  rw [none] at owns
  cases owns

/-- The symbols of a program are in bounds. -/
theorem Sound.target_within (sound : program.Sound inputs) {id : SymbolId} {symbol : Symbol}
    (stands : program.symbols.get id = .ok symbol) : symbol.target.Within program.modules := by
  refine sound.registered.targets ?_ id symbol (existing_eq_ok.1 stands)
  simp [SymbolTable.empty]

theorem sound_of_ofInputs (h : ofInputs inputs options = .ok program) : Sound inputs program := by
  obtain ⟨session, added, decided⟩ := decided_of_ofInputs h
  have sound := Session.addAll_sound added
  have supplied := SymbolTable.reached_of_complete decided.symbols
  have wf := (sound.registered.later SymbolTable.wellFormed_empty).1
  obtain ⟨size, registered, reads, imports⟩ := sound
  rw [decided.modules] at size registered reads imports
  refine ⟨size, ?_, ?_, imports⟩
  · exact registered.trans (supplied.mono fun _ => within_of_supplied)
  · intro owner name bytes module input here
    exact (reads owner name bytes module input here).later rfl (.refl module) (supplied.later wf).2

/-- The symbol table of a program is well-formed. -/
theorem Sound.wellFormed (sound : program.Sound inputs) : program.symbols.WellFormed :=
  (sound.registered.later SymbolTable.wellFormed_empty).1

end Program

end StaticLink
