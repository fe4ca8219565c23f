import StaticLink.Proofs.Program.Imports

/-!
# The globals of the linked module

Globals are numbered as functions are: the imports by their names, those of the linker by their
symbols, those of the inputs by a base for each input. The base of an input takes the symbols of the
linker into account, and the section for globals has the values that these symbols stand for. Both
are as many.

* `Program.HasGlobalIndex`: the index that the linker gives to a global.
* `Program.outputGlobals`: the globals in their order.
* `Program.NumbersGlobals`: each global stands at its index, and no index is left out.
* `Program.numbersGlobals_of_ofInputs`: the linker numbers the globals of all inputs.
-/

namespace StaticLink

/-- A global of the linked module. -/
inductive OutputGlobal
  | imported (name : ImportName)
  /-- One that the linker supplies. -/
  | supplied (id : SymbolId)
  /-- The global at `position` among those that input `owner` defines. -/
  | defined (owner : ModuleId) (position : Nat)
deriving DecidableEq, Repr

/-- The global at a place of the index space. -/
def OutputGlobal.ofPlace : ImportName ⊕ SymbolId ⊕ ModuleId × Nat → OutputGlobal
  | .inl name => .imported name
  | .inr (.inl id) => .supplied id
  | .inr (.inr (owner, position)) => .defined owner position

theorem OutputGlobal.ofPlace_injective : Function.Injective OutputGlobal.ofPlace := by
  rintro (_ | _ | ⟨_, _⟩) (_ | _ | ⟨_, _⟩) same <;> cases same <;> rfl

namespace Program

/-- The linker supplies a global with this initial value for the symbol. -/
def SuppliesGlobal (program : Program) (id : SymbolId) (initial : Int32) : Prop :=
  ∃ symbol, program.symbols.get id = .ok symbol ∧ symbol.target = .global (.synthesized initial)

/-- The index that the linker gives to a global. -/
inductive HasGlobalIndex (program : Program) : OutputGlobal → Nat → Prop
  | imported {name : ImportName} {index : Nat}
      (found : program.imports.globalIndex? name = some index) :
    HasGlobalIndex program (.imported name) index
  | supplied {id : SymbolId} {initial : Int32} {index : Nat}
      (stands : program.SuppliesGlobal id initial) (found : program.globalIndex id = .ok index) :
    HasGlobalIndex program (.supplied id) index
  | defined {owner : ModuleId} {position : Nat} {module : ObjectModule}
      (input : program.modules[owner]? = some module) (small : position < module.globals.size) :
    HasGlobalIndex program (.defined owner position) (program.globalBase owner + position)

/-- The globals of the linked module: the imports, then those that the linker supplies, then those
of the inputs, one input after the other. -/
def outputGlobals (program : Program) : List OutputGlobal :=
  (program.imports.globals.map (·.1)).map .imported ++
    (program.symbols.syntheticGlobals.map .supplied ++
      (positions (·.globals.size) program.modules).map fun (owner, position) =>
        .defined owner position)

/-- Each global of the linked module stands at the index that the linker gives to it. -/
structure NumbersGlobals (program : Program) : Prop where
  index_iff : ∀ global index,
    program.HasGlobalIndex global index ↔ program.outputGlobals[index]? = some global
  /-- No global has two indices. -/
  nodup : program.outputGlobals.Nodup
  size : program.outputGlobals.length = program.imports.globals.length + program.globalCount
  /-- Every global that the linker supplies is among them, -/
  supplied : ∀ id initial, program.SuppliesGlobal id initial →
    .supplied id ∈ program.outputGlobals
  /-- and it always supplies one, which points to the top of the stack. -/
  stackPointer : ∃ id, program.SuppliesGlobal id (.ofInt program.stackTop)
  /-- A symbol that an input defines has the index of its global. -/
  symbol : ∀ id symbol owner place, program.symbols.get id = .ok symbol →
    symbol.target = .global (.defined owner place) →
    program.globalIndex id = .ok (program.globalBase owner + place.toNat) ∧
      program.HasGlobalIndex (.defined owner place.toNat) (program.globalBase owner + place.toNat)

variable {inputs : List (String × Bytes)} {options : Options} {program : Program}
  {global : OutputGlobal} {index : Nat} {id : SymbolId} {initial : Int32}

/-! ## The globals that the linker supplies -/

theorem mem_syntheticGlobals_iff (wf : program.symbols.WellFormed) :
    id ∈ program.symbols.syntheticGlobals ↔ ∃ initial, program.SuppliesGlobal id initial := by
  refine (wf.mem_synthetic .global id).trans ⟨?_, ?_⟩
  · rintro ⟨symbol, stands, supplied, kind⟩
    rcases target : symbol.target with _ | (_ | _ | initial) | _
    · rw [target] at kind
      cases kind
    · rw [target] at supplied
      cases supplied
    · rw [target] at supplied
      cases supplied
    · exact ⟨initial, symbol, existing_eq_ok.2 stands, target⟩
    · rw [target] at kind
      cases kind
  · rintro ⟨initial, symbol, stands, target⟩
    exact ⟨symbol, existing_eq_ok.1 stands, by rw [target]; rfl, by rw [target]; rfl⟩

/-- The initial values stand in the order of the symbols, and none is missing. -/
theorem forall₂_syntheticGlobals (wf : program.symbols.WellFormed) :
    List.Forall₂ program.SuppliesGlobal program.symbols.syntheticGlobals
      program.syntheticGlobals := by
  refine (forall₂_filterMap fun id listed => ?_).imp fun id initial chosen => ?_
  · obtain ⟨initial, symbol, stands, target⟩ := (mem_syntheticGlobals_iff wf).1 listed
    rw [existing_eq_ok.1 stands, Option.map_some, target]
    rfl
  · split at chosen
    · next value target =>
      cases chosen
      obtain ⟨symbol, stands, target⟩ := Option.map_eq_some_iff.1 target
      exact ⟨symbol, existing_eq_ok.2 stands, target⟩
    · cases chosen

/-- A global that the linker supplies comes after the imports, in the place of its symbol. -/
theorem globalIndex_of_synthetic (wf : program.symbols.WellFormed) {place : Nat}
    (here : program.symbols.syntheticGlobals[place]? = some id) :
    program.globalIndex id = .ok (program.imports.globals.length + place) := by
  obtain ⟨initial, symbol, stands, target⟩ :=
    (mem_syntheticGlobals_iff wf).1 (List.mem_of_getElem? here)
  have position : program.symbols.syntheticGlobalIndex? id = some place :=
    (idxOf?_eq_some_iff_of_nodup (wf.synthetic_nodup .global)).2 here
  refine bind_eq_ok.2 ⟨symbol, stands, ?_⟩
  simp only [target]
  refine bind_eq_ok.2 ⟨place, ?_, rfl⟩
  rw [position]
  rfl

/-! ## Numbering -/

theorem outputGlobals_eq_map (program : Program) : program.outputGlobals =
    (indexSpace (·.globals.size) (program.imports.globals.map (·.1))
      program.symbols.syntheticGlobals program.modules).map OutputGlobal.ofPlace := by
  unfold outputGlobals indexSpace
  simp only [List.map_append, List.map_map]
  rfl

theorem length_outputGlobals (wf : program.symbols.WellFormed) :
    program.outputGlobals.length = program.imports.globals.length + program.globalCount := by
  rw [outputGlobals_eq_map, List.length_map, length_indexSpace, List.length_map,
    (forall₂_syntheticGlobals wf).length_eq]
  rfl

theorem nodup_outputGlobals (wf : program.symbols.WellFormed)
    (imports : (program.imports.globals.map (·.1)).Nodup) : program.outputGlobals.Nodup := by
  rw [outputGlobals_eq_map]
  exact (nodup_indexSpace _ imports (wf.synthetic_nodup .global)).map OutputGlobal.ofPlace_injective

/-- A global stands at the index that the linker gives to it. -/
theorem getElem?_of_hasGlobalIndex (wf : program.symbols.WellFormed)
    (imports : (program.imports.globals.map (·.1)).Nodup)
    (has : program.HasGlobalIndex global index) :
    program.outputGlobals[index]? = some global := by
  rw [outputGlobals_eq_map, List.getElem?_map]
  cases has with
  | imported found =>
    rw [Imports.globalIndex?, positionOfKey?_eq_idxOf?, idxOf?_eq_some_iff_of_nodup imports]
      at found
    rw [getElem?_indexSpace_imported _ found]
    rfl
  | supplied stands found =>
    obtain ⟨place, here⟩ := List.mem_iff_getElem?.1 ((mem_syntheticGlobals_iff wf).2 ⟨_, stands⟩)
    rw [globalIndex_of_synthetic wf here] at found
    cases found
    rw [← List.length_map (·.1), getElem?_indexSpace_supplied _ here]
    rfl
  | defined input small =>
    unfold globalBase syntheticGlobalBase
    rw [← List.length_map (·.1), getElem?_indexSpace_position (·.globals.size) input small]
    rfl

/-- The linker gives an index to every global. -/
theorem exists_hasGlobalIndex (wf : program.symbols.WellFormed)
    (imports : (program.imports.globals.map (·.1)).Nodup)
    (member : global ∈ program.outputGlobals) : ∃ index, program.HasGlobalIndex global index := by
  rw [outputGlobals_eq_map] at member
  obtain ⟨place, within, rfl⟩ := List.mem_map.1 member
  rcases mem_indexSpace _ within with
    ⟨name, listed, rfl⟩ | ⟨id, listed, rfl⟩ | ⟨owner, module, position, input, small, rfl⟩
  · obtain ⟨index, here⟩ := List.mem_iff_getElem?.1 listed
    refine ⟨index, .imported ?_⟩
    rw [Imports.globalIndex?, positionOfKey?_eq_idxOf?, idxOf?_eq_some_iff_of_nodup imports]
    exact here
  · obtain ⟨place, here⟩ := List.mem_iff_getElem?.1 listed
    obtain ⟨initial, stands⟩ := (mem_syntheticGlobals_iff wf).1 listed
    exact ⟨_, .supplied stands (globalIndex_of_synthetic wf here)⟩
  · exact ⟨_, .defined input small⟩

theorem numbersGlobals_of_ofInputs (h : ofInputs inputs options = .ok program) :
    program.NumbersGlobals := by
  have sound := sound_of_ofInputs h
  have wf := sound.wellFormed
  obtain ⟨session, -, decided⟩ := decided_of_ofInputs h
  have names : (program.imports.globals.map (·.1)).Nodup := by
    obtain ⟨_, globals, -, -, -, same⟩ := exists_imports decided.imports
    rw [same]
    exact keys_nodup_firstOfKeys globals
  refine ⟨fun _ _ => ?_, nodup_outputGlobals wf names, length_outputGlobals wf, ?_,
    SymbolTable.exists_stackPointer_of_complete decided.symbols, ?_⟩
  · exact index_iff_of_nodup (nodup_outputGlobals wf names)
      (fun _ _ => getElem?_of_hasGlobalIndex wf names) fun _ => exists_hasGlobalIndex wf names
  · intro id initial stands
    have listed := (mem_syntheticGlobals_iff wf).2 ⟨initial, stands⟩
    exact List.mem_append_right _ (List.mem_append_left _ (List.mem_map_of_mem listed))
  · intro id symbol owner place stands target
    obtain ⟨module, input, has⟩ := sound.target_within stands owner (by rw [target]; rfl)
    rw [target] at has
    refine ⟨bind_eq_ok.2 ⟨symbol, stands, ?_⟩, .defined input has⟩
    simp only [target]
    exact bind_eq_ok.2 ⟨module, existing_eq_ok.2 input, rfl⟩

/-! ## How many there are -/

theorem NumbersGlobals.globalCount_pos (numbers : program.NumbersGlobals)
    (wf : program.symbols.WellFormed) : 0 < program.globalCount := by
  obtain ⟨id, stands⟩ := numbers.stackPointer
  have some := List.length_pos_of_mem ((mem_syntheticGlobals_iff wf).2 ⟨_, stands⟩)
  rw [(forall₂_syntheticGlobals wf).length_eq] at some
  exact Nat.add_pos_left some _

/-- Globals come of symbols and of entries in the inputs. -/
theorem globalCount_le (wf : program.symbols.WellFormed)
    (imports : program.imports.globals.length ≤ program.symbols.strongGlobals.length) :
    program.imports.globals.length + program.globalCount ≤
      countAll (·.weight) program.modules + program.symbols.linked := by
  have linked := SymbolTable.strongGlobals_add_synthetic_le wf
  have globals : countAll (·.globals.size) program.modules ≤
      countAll (·.weight) program.modules :=
    countAll_le fun module _ => module.globals_size_le_weight
  have supplied := (forall₂_syntheticGlobals wf).length_eq
  unfold SymbolTable.linked globalCount
  omega

theorem globalCount_lt_of_ofInputs (h : ofInputs inputs options = .ok program)
    (small : totalSize inputs < wordLimit) :
    program.imports.globals.length + program.globalCount < wordLimit := by
  obtain ⟨session, -, decided⟩ := decided_of_ofInputs h
  obtain ⟨-, -, few⟩ := imports_facts decided.imports
  have count := globalCount_le (sound_of_ofInputs h).wellFormed few
  exact (measured_of_ofInputs h).lt_wordLimit small (Nat.le_succ_of_le count)

end Program

end StaticLink
