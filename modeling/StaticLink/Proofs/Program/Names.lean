import StaticLink.Proofs.Program.Functions
import StaticLink.Proofs.StableSort

/-!
# The names of a program

The names of functions are those that the linker gives to what it supplies, and those that the inputs
give. A name of an input moves by the functions before this input, and nothing says that the index in
the name section is that of a function.

* `Program.NamesFit`: every name that is moved has an index of 32 bits.
* `Program.functionNames_eq_ok_iff`: then there are the names of the program, and what they are.
* `Program.functionNames_eq_overflow`: else nothing but a sum that is too large comes of them.
-/

namespace StaticLink

/-- Names are compared by their indices. -/
def indexLe (first second : UInt32 × String) : Bool := decide (first.1 ≤ second.1)

/-- The names by ascending index, without those of an index that has one already. -/
def ascending (names : List (UInt32 × String)) : List (UInt32 × String) :=
  firstOfKeys (names.mergeSort indexLe)

namespace Program

/-- The number of the function that input `owner` names when it gives a name to function `index`. -/
def namedNumber (program : Program) (owner : ModuleId) (module : ObjectModule) (index : UInt32) :
    Nat :=
  program.functionBase owner + (index.toNat - module.functionImports.size)

/-- The index for which input `owner` gives a name when it gives it to function `index`. -/
def namedIndex (program : Program) (owner : ModuleId) (module : ObjectModule) (index : UInt32) :
    UInt32 :=
  UInt32.ofNat (program.namedNumber owner module index)

/-- The names that input `owner` gives, but for those of imports, at their new indices. -/
def movedNames (program : Program) (owner : ModuleId) (module : ObjectModule) :
    List (UInt32 × String) :=
  (module.functionNames.toList.filter fun (index, _) =>
      module.functionImports.size ≤ index.toNat).map
    fun (index, name) => (program.namedIndex owner module index, name)

/-- The names that the inputs give, one input after the other. -/
def givenNames (program : Program) : List (UInt32 × String) :=
  program.modules.zipIdx.flatMap fun (module, owner) => program.movedNames owner module

/-- The new index of every name that input `owner` gives is a word. -/
def MovedFit (program : Program) (owner : ModuleId) (module : ObjectModule) : Prop :=
  ∀ entry ∈ module.functionNames, module.functionImports.size ≤ entry.1.toNat →
    program.namedNumber owner module entry.1 < wordLimit

/-- The new index of every name is a word. -/
def NamesFit (program : Program) : Prop :=
  ∀ owner module, program.modules[owner]? = some module → program.MovedFit owner module

instance (program : Program) (owner : ModuleId) (module : ObjectModule) :
    Decidable (program.MovedFit owner module) :=
  inferInstanceAs (Decidable (∀ entry ∈ module.functionNames, _ → _))

variable {program : Program} {owner : ModuleId} {module : ObjectModule}
  {names : List (UInt32 × String)} {inputs : List (String × Bytes)} {options : Options}

theorem namesFit_iff : program.NamesFit ↔
    ∀ entry ∈ program.modules.zipIdx, program.MovedFit entry.2 entry.1 := by
  constructor
  · rintro fit ⟨module, owner⟩ listed
    exact fit owner module (List.mk_mem_zipIdx_iff_getElem?.1 listed)
  · intro fit owner module input
    exact fit (module, owner) (List.mk_mem_zipIdx_iff_getElem?.2 input)

instance (program : Program) : Decidable program.NamesFit := decidable_of_iff _ namesFit_iff.symm

theorem moved_eq_ok_iff {number : Nat} {name : String} {entry : UInt32 × String} :
    (do return (UInt32.ofNat (← inWord number), name) : Except Error _) = .ok entry ↔
      number < wordLimit ∧ (UInt32.ofNat number, name) = entry := by
  rw [return_eq_ok]
  constructor
  · rintro ⟨_, fits, rfl⟩
    obtain ⟨small, rfl⟩ := inWord_eq_ok.1 fits
    exact ⟨small, rfl⟩
  · rintro ⟨small, rfl⟩
    exact ⟨number, inWord_eq_ok.2 ⟨small, rfl⟩, rfl⟩

theorem inputNames_eq_ok_iff : program.inputNames owner module = .ok names ↔
    program.MovedFit owner module ∧ program.movedNames owner module = names := by
  unfold inputNames
  rw [mapM_eq_ok_iff fun entry _ => moved_eq_ok_iff]
  refine and_congr_left fun _ => ?_
  simp only [List.mem_filter, Array.mem_toList_iff, decide_eq_true_iff, and_imp]
  rfl

theorem mapM_inputNames_eq_ok_iff {parts : List (List (UInt32 × String))} :
    (program.modules.zipIdx.mapM fun (module, owner) => program.inputNames owner module) =
        .ok parts ↔
      program.NamesFit ∧
        (program.modules.zipIdx.map fun (module, owner) => program.movedNames owner module) =
          parts := by
  rw [mapM_eq_ok_iff fun _ _ => inputNames_eq_ok_iff, namesFit_iff]

/-- There are the names of the functions exactly if the indices of all of them are words, and they
are by ascending index those of what is supplied and those that the inputs give. -/
theorem functionNames_eq_ok_iff : program.functionNames = .ok names ↔
    program.NamesFit ∧ ∃ supplied, program.syntheticNames = .ok supplied ∧
      ascending (supplied ++ program.givenNames) = names := by
  constructor
  · intro h
    obtain ⟨supplied, here, h⟩ := bind_eq_ok.1 h
    obtain ⟨parts, there, rfl⟩ := return_eq_ok.1 h
    obtain ⟨fit, rfl⟩ := mapM_inputNames_eq_ok_iff.1 there
    exact ⟨fit, supplied, here, rfl⟩
  · rintro ⟨fit, supplied, here, rfl⟩
    refine bind_eq_ok.2 ⟨supplied, here, ?_⟩
    exact bind_eq_ok.2 ⟨_, mapM_inputNames_eq_ok_iff.2 ⟨fit, rfl⟩, rfl⟩

/-- The functions that the linker supplies have names. -/
theorem exists_syntheticNames (decided : ofInputs inputs options = .ok program) :
    ∃ supplied, program.syntheticNames = .ok supplied := by
  have wf := (sound_of_ofInputs decided).wellFormed
  refine exists_mapM_eq_ok fun id listed => ?_
  obtain ⟨place, here⟩ := List.mem_iff_getElem?.1 listed
  obtain ⟨symbol, stands, -⟩ := (wf.mem_synthetic .function id).1 listed
  have index := functionIndex_of_synthetic wf here
  exact ⟨_, bind_eq_ok.2 ⟨symbol, existing_eq_ok.2 stands, bind_eq_ok.2 ⟨_, index, rfl⟩⟩⟩

theorem exists_functionNames_iff (decided : ofInputs inputs options = .ok program) :
    (∃ names, program.functionNames = .ok names) ↔ program.NamesFit := by
  obtain ⟨supplied, here⟩ := exists_syntheticNames decided
  constructor
  · rintro ⟨names, named⟩
    exact (functionNames_eq_ok_iff.1 named).1
  · exact fun fit => ⟨_, functionNames_eq_ok_iff.2 ⟨fit, supplied, here, rfl⟩⟩

theorem inputNames_ok_or : (∃ names, program.inputNames owner module = .ok names) ∨
    program.inputNames owner module = .error .overflow := by
  refine mapM_ok_or fun entry _ => ?_
  by_cases small : program.namedNumber owner module entry.1 < wordLimit
  · exact .inl ⟨_, bind_eq_ok.2 ⟨_, inWord_eq_ok.2 ⟨small, rfl⟩, rfl⟩⟩
  · right
    show (inWord (program.namedNumber owner module entry.1) >>= _) = _
    rw [inWord, if_neg small]
    rfl

/-- Without the names of a program, a sum is too large, and this is all that is wrong. -/
theorem functionNames_eq_overflow (decided : ofInputs inputs options = .ok program)
    (unfit : ¬ program.NamesFit) : program.functionNames = .error .overflow := by
  obtain ⟨supplied, here⟩ := exists_syntheticNames decided
  unfold functionNames
  rw [here]
  have each (entry : ObjectModule × ModuleId) (_ : entry ∈ program.modules.zipIdx) :=
    @inputNames_ok_or program entry.2 entry.1
  -- All that can be wrong with an input is one of its sums.
  rcases mapM_ok_or each with ⟨parts, done⟩ | failed
  · exact absurd (mapM_inputNames_eq_ok_iff.1 done).1 unfit
  · show ((program.modules.zipIdx.mapM fun entry => program.inputNames entry.2 entry.1) >>= _) = _
    rw [failed]
    rfl

end Program

end StaticLink
