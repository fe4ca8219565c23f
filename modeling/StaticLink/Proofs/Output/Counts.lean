import StaticLink.Proofs.Output.Bodies

/-!
# Functions and bodies that are not as many

A linked module says twice how many functions it defines: in the section for functions and in the
one for code. The first number is the sum of the functions that inputs have, and the second that of
the bodies that they declare. No step of a link compares the two, so that an input that has more
functions than bodies, or fewer, moves the bodies of all inputs after it to other functions.

* `declaredEntries`: how many entries a section declares.
* `Program.Runs`: the body that a function of the linked module has, by its place.
* `link_counts`: what the two sections declare, when it is the same, and which functions have their
  own bodies.
-/

namespace StaticLink

/-- How many entries a section with these contents declares. Without a section there are none. -/
def declaredEntries : (contents : Option Bytes) → Option Nat
  | none => some 0
  | some contents => (Leb128.decodeUInt32 contents).toOption.map fun (count, _) => count.toNat

theorem declaredEntries_of_vectorContents {count : UInt32} {entries : Except Error Bytes}
    {contents : Option Bytes} (h : vectorContents count entries = .ok contents) :
    declaredEntries contents = some count.toNat := by
  rcases vectorContents_eq_ok h with ⟨rfl, rfl⟩ | ⟨-, bytes, -, rfl⟩
  · rfl
  · simp only [declaredEntries, Leb128.decodeUInt32_ofUInt32]
    rfl

namespace Program

/-- By its place in the linked module, function `i` of input `owner` has body `j` of input
`source`: as many functions come before the one as bodies are declared before the other. -/
def Runs (program : Program) (owner : ModuleId) (i : Nat) (source : ModuleId) (j : Nat) : Prop :=
  countBefore (·.functions.size) program.modules owner + i =
    countBefore (·.declaredCount .code) program.modules source + j

instance (program : Program) (owner : ModuleId) (i : Nat) (source : ModuleId) (j : Nat) :
    Decidable (program.Runs owner i source j) :=
  inferInstanceAs (Decidable (_ = _))

variable {program : Program} {owner source : ModuleId} {module : ObjectModule} {i j : Nat}

/-- A function has its own body exactly if the inputs before declare as many bodies as they have
functions, all together. -/
theorem runs_self_iff : program.Runs owner i owner i ↔
    countBefore (·.functions.size) program.modules owner =
      countBefore (·.declaredCount .code) program.modules owner :=
  Nat.add_right_cancel_iff

/-- Inputs that all declare as many bodies as they have functions do so before each of them. -/
theorem countBefore_eq_of_balanced (owner : ModuleId)
    (balanced : ∀ module ∈ program.modules, module.declaredCount .code = module.functions.size) :
    countBefore (·.functions.size) program.modules owner =
      countBefore (·.declaredCount .code) program.modules owner :=
  countAll_congr fun module member => (balanced module (List.mem_of_mem_take member)).symm

/-- An input with another number of bodies than functions moves the bodies of the next input, if the
inputs before it have as many bodies as functions. -/
theorem countBefore_ne_of_unbalanced (input : program.modules[owner]? = some module)
    (before : countBefore (·.functions.size) program.modules owner =
      countBefore (·.declaredCount .code) program.modules owner)
    (unbalanced : module.declaredCount .code ≠ module.functions.size) :
    countBefore (·.functions.size) program.modules (owner + 1) ≠
      countBefore (·.declaredCount .code) program.modules (owner + 1) := by
  rw [countBefore_succ input, countBefore_succ input, before]
  omega

/-- How many functions and bodies a linked module declares. -/
structure DeclaresEntries (program : Program) (contents : SectionId → Option Bytes) : Prop where
  functions : declaredEntries (contents .functions) = some (program.functionCount % wordLimit)
  code : declaredEntries (contents .code) = some (program.codeCount % wordLimit)
  /-- They are as many exactly if the sums over all inputs are. -/
  same_iff : declaredEntries (contents .functions) = declaredEntries (contents .code) ↔
    countAll (·.functions.size) program.modules % wordLimit =
      countAll (·.declaredCount .code) program.modules % wordLimit

theorem Written.declaresEntries {interface : Interface} {contents : SectionId → Option Bytes}
    {output : Bytes} (written : program.Written interface contents output) :
    program.DeclaresEntries contents := by
  have functions : declaredEntries (contents .functions) =
      some (program.functionCount % wordLimit) :=
    declaredEntries_of_vectorContents (written.made .functions)
  have code : declaredEntries (contents .code) = some (program.codeCount % wordLimit) :=
    declaredEntries_of_vectorContents (written.made .code)
  refine ⟨functions, code, ?_⟩
  -- Both counts begin with the functions that the linker supplies.
  rw [functions, code, Option.some.injEq, functionCount, codeCount]
  unfold wordLimit
  omega

/-- What a reader finds at the place of a function is the body that the function runs. -/
theorem WritesBodies.getElem?_of_runs {bodies : ModuleId → List Bytes} {emitted : List Bytes}
    {original : Bytes}
    (writes : program.WritesBodies (·.declaredCount .code) bodies emitted)
    (runs : program.Runs owner i source j) (input : program.modules[source]? = some module)
    (here : (bodies source)[j]? = some original) :
    ∃ found result, module.section? .code = some found ∧
      program.relocate source found found.header.payload = .ok result ∧
      emitted[program.functionBase owner + i - program.imports.functions.length]? =
        some (result.window (Bytes.startOf (bodies source) j) original.length) := by
  obtain ⟨found, result, _, first, relocated, rfl, place, -⟩ :=
    writes.input source module j original input here
  refine ⟨found, result, first, relocated, ?_⟩
  rw [functionBase_sub_imports, show countBefore _ _ owner + i = _ from runs]
  exact place

end Program

/-- The sections for functions and code of a linked module declare as many entries as the inputs have
functions and declare bodies, together with what the linker supplies. These numbers are the same
where each input declares as many bodies as it has functions, and each function then runs its own
body. Linking succeeds in other cases too. A function then runs the body that is at its place, and
this is not its own one where the numbers have first differed in the input before. -/
theorem link_counts {inputs : List (String × Bytes)} {options : Options} {output : Bytes}
    (linked : link inputs options = .ok output) :
    ∃ program interface contents, Program.ofInputs inputs options = .ok program ∧
      program.Written interface contents output ∧ program.DeclaresEntries contents ∧
      ((∀ module ∈ program.modules, module.declaredCount .code = module.functions.size) →
        declaredEntries (contents .functions) = declaredEntries (contents .code) ∧
          ∀ owner i, program.Runs owner i owner i) ∧
      (∀ owner module, program.modules[owner]? = some module →
        (∀ i, program.Runs owner i owner i) →
        module.declaredCount .code ≠ module.functions.size →
          ∀ i, ¬ program.Runs (owner + 1) i (owner + 1) i) ∧
      ∀ bodies : ModuleId → List Bytes,
        (∀ (owner : ModuleId) (module : ObjectModule), program.modules[owner]? = some module →
          module.Cut (bodies owner) ∧ (bodies owner).length = module.declaredCount .code) →
        UInt32.ofNat program.codeCount ≠ 0 →
        ∃ emitted, contents .code = some (Program.encodeNat program.codeCount ++ emitted.flatten) ∧
          program.WritesBodies (·.declaredCount .code) bodies emitted ∧
          ∀ owner i source j module original, program.Runs owner i source j →
            program.modules[source]? = some module → (bodies source)[j]? = some original →
            ∃ found result, module.section? .code = some found ∧
              program.relocate source found found.header.payload = .ok result ∧
              emitted[program.functionBase owner + i - program.imports.functions.length]? =
                some (result.window (Bytes.startOf (bodies source) j) original.length) := by
  obtain ⟨program, interface, decided, -, written⟩ := exists_written_of_link linked
  have declares := written.declaresEntries
  refine ⟨program, interface, _, decided, written, declares, ?_, ?_, ?_⟩
  · intro balanced
    refine ⟨declares.same_iff.2 (congrArg (· % wordLimit) ?_), fun owner i => ?_⟩
    · exact countAll_congr fun module member => (balanced module member).symm
    · exact Program.runs_self_iff.2 (Program.countBefore_eq_of_balanced owner balanced)
  · intro owner module input own unbalanced i moved
    have before := Program.runs_self_iff.1 (own 0)
    exact Program.countBefore_ne_of_unbalanced input before unbalanced
      (Program.runs_self_iff.1 moved)
  · intro bodies cuts any
    obtain ⟨emitted, code, writes⟩ := Program.exists_writesBodies (·.declaredCount .code) written
      (fun owner module input => (cuts owner module input).1)
      (fun owner module input => (cuts owner module input).2) any
    exact ⟨emitted, code, writes,
      fun _ _ _ _ _ _ runs input here => writes.getElem?_of_runs runs input here⟩

/-- In `pair` the function of the second input runs its own body, the second one of two. -/
theorem link_pair_counts :
    ∃ (program : Program) (contents : SectionId → Option Bytes) (emitted : List Bytes),
      declaredEntries (contents .functions) = declaredEntries (contents .code) ∧
      program.Runs 1 0 1 0 ∧ program.WritesBodies (·.declaredCount .code) bodiesOfPair emitted ∧
      ∃ result : Bytes, emitted[1]? = some (result.window 0 9) := by
  have linked : link pair {} = .ok linkedPair := by decide +kernel
  have facts : ((Program.ofInputs pair {}).map fun program =>
      (program.modules.map fun module => (module.codeFacts?, module.declaredCount .code),
        program.codeCount, program.functionBase 1 + 0 - program.imports.functions.length)) =
        .ok ([(some ⟨1, some [2, 0, 11], 21, []⟩, 1),
          (some ⟨1, some [8, 0, 16, 128, 128, 128, 128, 0, 11], 21, [(24, 5)]⟩, 1)], 2, 1) := by
    decide +kernel
  obtain ⟨program, _, contents, decided, -, -, balanced, -, runs⟩ := link_counts linked
  rw [decided] at facts
  obtain ⟨modules, counts⟩ := Prod.mk.inj (Except.ok.inj facts)
  obtain ⟨count, place⟩ := Prod.mk.inj counts
  obtain ⟨first, _, modules, one, others⟩ := List.map_eq_cons_iff.1 modules
  obtain ⟨second, rfl, two⟩ := List.map_eq_singleton_iff.1 others
  obtain ⟨code, declared⟩ := Prod.mk.inj one
  obtain ⟨code', declared'⟩ := Prod.mk.inj two
  have body : IsBody [2, 0, 11] 1 := ⟨2, by decide, rfl⟩
  have body' : IsBody [8, 0, 16, 128, 128, 128, 128, 0, 11] 1 := ⟨8, by decide, rfl⟩
  have cut : first.functions.size = 1 ∧ first.Cut (bodiesOfPair 0) := by
    refine ObjectModule.cut_of_codeFacts? code ?_ (by simp)
    intro other member
    obtain rfl := List.mem_singleton.1 member
    exact ⟨1, body⟩
  have cut' : second.functions.size = 1 ∧ second.Cut (bodiesOfPair 1) := by
    refine ObjectModule.cut_of_codeFacts? code' ?_ ?_
    · intro other member
      obtain rfl := List.mem_singleton.1 member
      exact ⟨1, body'⟩
    · intro place member
      obtain rfl := List.mem_singleton.1 member
      exact ⟨0, _, 1, rfl, body', by decide, by decide⟩
  rw [modules] at balanced runs
  obtain ⟨same, own⟩ := balanced (by simp [declared, declared', cut.1, cut'.1])
  obtain ⟨emitted, -, writes, runs⟩ := runs bodiesOfPair (by
    intro owner module here
    match owner, here with
    | 0, here =>
      cases here
      exact ⟨cut.2, declared.symm⟩
    | 1, here =>
      cases here
      exact ⟨cut'.2, declared'.symm⟩) (by rw [count]; decide)
  obtain ⟨found, result, -, relocated, here⟩ := runs 1 0 1 0 second _ (own 1 0) rfl rfl
  rw [place] at here
  exact ⟨program, contents, emitted, same, own 1 0, writes, result, here⟩

/-- Three inputs with one function each, or two. The first has a body too many, the last one has a
body too few. -/
def shifted : List (String × Bytes) :=
  [("extra.o",
      [0, 97, 115, 109, 1, 0, 0, 0, 1, 4, 1, 96, 0, 0, 3, 2, 1, 0, 10, 8, 2, 2, 0, 11, 3, 0, 0, 11,
       0, 17, 7, 108, 105, 110, 107, 105, 110, 103, 2, 8, 6, 1, 0, 0, 0, 1, 101]),
    ("victim.o",
      [0, 97, 115, 109, 1, 0, 0, 0, 1, 4, 1, 96, 0, 0, 3, 2, 1, 0, 10, 4, 1, 2, 0, 11, 0, 17, 7,
       108, 105, 110, 107, 105, 110, 103, 2, 8, 6, 1, 0, 0, 0, 1, 102]),
    ("missing.o",
      [0, 97, 115, 109, 1, 0, 0, 0, 1, 4, 1, 96, 0, 0, 3, 3, 2, 0, 0, 10, 5, 1, 3, 0, 1, 11, 0, 17,
       7, 108, 105, 110, 107, 105, 110, 103, 2, 8, 6, 1, 0, 0, 0, 1, 109])]

/-- The function of the second input runs the second body of the first one, while the linked module
has as many bodies as functions. Of `uncounted`, the linked module has a function and no body. -/
theorem link_shifted :
    (∃ program interface contents output, link shifted {} = .ok output ∧
      Program.ofInputs shifted {} = .ok program ∧ program.Written interface contents output ∧
      (program.modules.map fun module => (module.functions.size, module.declaredCount .code)) =
        [(1, 2), (1, 1), (2, 1)] ∧
      contents .functions = some [4, 0, 1, 2, 2] ∧
      contents .code = some (4 :: [[2, 0, 11], [3, 0, 0, 11], [2, 0, 11], [3, 0, 1, 11]].flatten) ∧
      program.Runs 1 0 0 1 ∧ ¬ program.Runs 1 0 1 0) ∧
    ∃ program interface contents output, link uncounted {} = .ok output ∧
      Program.ofInputs uncounted {} = .ok program ∧ program.Written interface contents output ∧
      declaredEntries (contents .functions) = some 1 ∧
      declaredEntries (contents .code) = some 0 := by
  constructor
  · have accepted : (link shifted {}).isOk = true := by decide +kernel
    have facts : ((Program.ofInputs shifted {}).map fun program =>
        (program.modules.map fun module => (module.functions.size, module.declaredCount .code),
          decide (program.Runs 1 0 0 1 ∧ ¬ program.Runs 1 0 1 0))) =
          .ok ([(1, 2), (1, 1), (2, 1)], true) := by decide +kernel
    have functions : (Program.ofInputs shifted {} >>= fun program =>
        vectorContents (.ofNat program.functionCount) program.functionEntries) =
          .ok (some [4, 0, 1, 2, 2]) := by decide +kernel
    have code : (Program.ofInputs shifted {} >>= fun program =>
        vectorContents (.ofNat program.codeCount) program.codeEntries) =
          .ok (some (4 :: [[2, 0, 11], [3, 0, 0, 11], [2, 0, 11], [3, 0, 1, 11]].flatten)) := by
      decide +kernel
    obtain ⟨output, linked⟩ := exists_of_isOk accepted
    obtain ⟨program, interface, decided, -, written⟩ := exists_written_of_link linked
    rw [decided] at facts functions code
    obtain ⟨modules, runs⟩ := Prod.mk.inj (Except.ok.inj facts)
    obtain ⟨other, own⟩ := of_decide_eq_true runs
    have functions := Except.ok.inj ((written.made .functions).symm.trans functions)
    have code := Except.ok.inj ((written.made .code).symm.trans code)
    exact ⟨program, interface, _, output, linked, decided, written, modules,
      functions, code, other, own⟩
  · have accepted : (link uncounted {}).isOk = true := by decide +kernel
    have facts : ((Program.ofInputs uncounted {}).map fun program =>
        (program.functionCount % wordLimit, program.codeCount % wordLimit)) = .ok (1, 0) := by
      decide +kernel
    obtain ⟨output, linked⟩ := exists_of_isOk accepted
    obtain ⟨program, interface, decided, -, written⟩ := exists_written_of_link linked
    rw [decided] at facts
    obtain ⟨functions, code⟩ := Prod.mk.inj (Except.ok.inj facts)
    have declares := written.declaresEntries
    refine ⟨program, interface, _, output, linked, decided, written, ?_, ?_⟩
    · rw [declares.functions, functions]
    · rw [declares.code, code]

end StaticLink
