import StaticLink.Proofs.Output.Bodies
import StaticLink.Proofs.Program.Sums
import StaticLink.Proofs.SymbolTable.Constructors

/-!
# The calls of all initializers in the linked module

* `MakesCalls`: a body that calls some functions one after the other and does nothing else.
* `Program.BodyAt`: a function of the linker has this body in the linked module.
* `Program.CallsInitializers`: the linker's function calls all initializers in their order.
* `link_constructors`: when there is such a function, and that its body is in the code.
-/

namespace StaticLink

/-- The body of a function without local variables that calls the functions of these indices, one
after the other. -/
def MakesCalls (body : Bytes) (indices : List Nat) : Prop :=
  ∃ (width : Nat) (operands : List Bytes), IsBody body width ∧
    body.drop width =
      0 :: (operands.flatMap fun operand => Opcode.call :: operand) ++ [Opcode.endExpression] ∧
    List.Forall₂ (fun operand index => ∀ behind, Leb128.decodeUInt32 (operand ++ behind) =
      .ok (.ofNat index, operand.length)) operands indices

namespace Program

variable {program : Program} {id : SymbolId} {body : Bytes} {functions : List SymbolId}
  {interface : Interface} {contents : SectionId → Option Bytes} {output : Bytes}

theorem makesCalls_functionBody (indices : List Nat)
    (small : (functionBody (indices.flatMap fun index => Opcode.call :: encodeNat index)).length <
      wordLimit) :
    MakesCalls (functionBody (indices.flatMap fun index => Opcode.call :: encodeNat index))
      indices := by
  obtain ⟨width, sized⟩ := isBody_functionBody _ small
  refine ⟨width, indices.map encodeNat, sized, ?_, ?_⟩
  · -- The size is the spelling of the length, whose width is the one that is decoded.
    have spelled : width = (encodeNat (0 :: (indices.flatMap fun index =>
        Opcode.call :: encodeNat index) ++ [Opcode.endExpression]).length).length := by
      obtain ⟨size, decoded, -⟩ := sized
      unfold functionBody at decoded
      dsimp only at decoded
      rw [encodeNat, Leb128.decodeUInt32_ofUInt32] at decoded
      exact (Prod.mk.inj (Except.ok.inj decoded)).2.symm
    rw [List.flatMap_map, functionBody, spelled]
    exact List.drop_left
  · rw [List.forall₂_map_left_iff, List.forall₂_same]
    intro index _ behind
    exact Leb128.decodeUInt32_ofUInt32 (.ofNat index) behind

/-- The body of a function that the linker supplies stands in the code of the linked module, behind
as many bodies as the function has of its kind before it. -/
def BodyAt (program : Program) (contents : SectionId → Option Bytes) (id : SymbolId)
    (body : Bytes) : Prop :=
  ∃ (earlier : List Bytes) (rest : Bytes),
    program.functionIndex id = .ok (program.imports.functions.length + earlier.length) ∧
    (∀ other ∈ earlier, ∃ width, IsBody other width) ∧
    contents .code = some (encodeNat program.codeCount ++ (earlier.flatten ++ (body ++ rest)))

/-- Every function that the linker supplies has its body in the code, if that is written. -/
theorem exists_bodyAt (wf : program.symbols.WellFormed)
    (written : program.Written interface contents output)
    (any : UInt32.ofNat program.codeCount ≠ 0) (listed : id ∈ program.symbols.syntheticFunctions) :
    ∃ body, program.syntheticBody id = .ok body ∧ body.length < wordLimit ∧
      program.BodyAt contents id body := by
  obtain ⟨bytes, produced, here⟩ : ∃ bytes, program.codeEntries = .ok bytes ∧
      contents .code = some (encodeNat program.codeCount ++ bytes) := by
    rcases vectorContents_eq_ok (written.made .code) with ⟨none, -⟩ | ⟨-, some⟩
    · exact absurd none any
    · exact some
  obtain ⟨bodies, supplied, produced⟩ := bind_eq_ok.1 produced
  obtain ⟨copied, -, rfl⟩ := return_eq_ok.1 produced
  obtain ⟨k, place⟩ := List.mem_iff_getElem?.1 listed
  obtain ⟨body, done, there⟩ := (mapM_eq_ok supplied).2 k id place
  have limit : bodies.flatten.length < wordLimit := by
    have small := written.small .code _ here
    simp only [List.length_append] at small
    omega
  have short {other : Bytes} (member : other ∈ bodies) : other.length < wordLimit :=
    Nat.lt_of_le_of_lt (List.infix_of_mem_flatten member).length_le limit
  have inside : k < bodies.length := (List.getElem?_eq_some_iff.1 there).1
  have split : bodies = bodies.take k ++ body :: bodies.drop (k + 1) := by
    rw [List.getElem?_eq_getElem inside] at there
    cases there
    rw [List.cons_getElem_drop_succ, List.take_append_drop]
  have before : (bodies.take k).length = k := by
    rw [List.length_take]
    omega
  refine ⟨body, done, short (List.mem_of_getElem? there), bodies.take k,
    (bodies.drop (k + 1)).flatten ++ copied, ?_, ?_, ?_⟩
  · rw [before]
    exact functionIndex_of_synthetic wf place
  · intro other member
    have member := List.mem_of_mem_take member
    obtain ⟨i, at'⟩ := List.mem_iff_getElem?.1 member
    obtain ⟨source, -, made⟩ := exists_item_of_mapM_eq_ok supplied at'
    obtain ⟨instructions, rfl⟩ := exists_functionBody made
    exact isBody_functionBody instructions (short member)
  · rw [here]
    conv_lhs => rw [split]
    simp only [List.flatten_append, List.flatten_cons, List.append_assoc]

/-! ## The function that calls all initializers -/

/-- The linker's function at `id` calls the functions of all initializers in their order: an index is
that of the symbol to which the entry of the initializer leads, as the complete table has it. -/
structure CallsInitializers (program : Program) (contents : SectionId → Option Bytes)
    (id : SymbolId) (calls : List PlacedInitializer) (indices : List Nat) : Prop where
  order : CallOrder program.modules calls
  each : List.Forall₂ (fun placed index => ∃ symbol, placed.Calls symbol ∧
    program.functionIndex symbol = .ok index) calls indices
  emitted : ∃ body, MakesCalls body indices ∧ program.BodyAt contents id body

theorem exists_callsInitializers {before : SymbolTable} (wf : program.symbols.WellFormed)
    (written : program.Written interface contents output)
    (has : before.HasCaller program.modules program.symbols)
    (any : UInt32.ofNat program.codeCount ≠ 0) (caller : program.symbols.CallsAt id functions) :
    ∃ calls indices, program.CallsInitializers contents id calls indices := by
  obtain ⟨calls, order, named⟩ := has.calls id functions caller
  have listed : id ∈ program.symbols.synthetic .function :=
    (wf.mem_synthetic .function id).2 ⟨_, caller.stands, rfl, rfl⟩
  obtain ⟨body, made, short, placed⟩ := exists_bodyAt wf written any listed
  have stands : program.symbols.get id = .ok (SymbolTable.constructorCaller functions) :=
    existing_eq_ok.2 caller.stands
  unfold syntheticBody at made
  rw [stands] at made
  obtain ⟨indices, indexed, rfl⟩ := return_eq_ok.1 made
  refine ⟨calls, indices, order, ?_, _, makesCalls_functionBody indices short, placed⟩
  -- The functions stand beside the initializers, and the indices beside the functions.
  have indexed := forall₂_of_mapM_eq_ok indexed
  rw [List.forall₂_iff_get] at named indexed ⊢
  refine ⟨named.1.trans indexed.1, ?_⟩
  intro i small small'
  have middle : i < functions.length := by
    rw [← named.1]
    exact small
  exact ⟨_, named.2 i small middle, indexed.2 i middle small'⟩

/-- Code is written where the functions of the linker are not as many as a word can count, or a
multiple of that. -/
theorem Written.codeCount_ne_zero (written : program.Written interface contents output)
    (some : program.symbols.syntheticFunctions.length % wordLimit ≠ 0) :
    UInt32.ofNat program.codeCount ≠ 0 := by
  intro none
  have same := congrArg UInt32.toNat none
  rw [UInt32.toNat_ofNat_of_lt' written.counted] at same
  exact some (Nat.add_eq_zero_iff.1 same).1

/-- The functions of the linker are fewer than a word can count where inputs are small. -/
theorem syntheticFunctions_mod_ne_zero {inputs : List (String × Bytes)} {options : Options}
    (decided : ofInputs inputs options = .ok program) (small : totalSize inputs < wordLimit)
    (listed : id ∈ program.symbols.syntheticFunctions) :
    program.symbols.syntheticFunctions.length % wordLimit ≠ 0 := by
  have numbered := numbered_of_ofInputs decided small
  have within : program.symbols.syntheticFunctions.length ≤ program.functionCount :=
    Nat.le_add_right _ _
  have few := Nat.lt_of_le_of_lt (Nat.le_trans within (Nat.le_add_left _ _)) numbered.small
  rw [Nat.mod_eq_of_lt few]
  exact List.length_pos_iff.1 (List.length_pos_of_mem listed) ∘ List.length_eq_zero_iff.1

end Program

/-- A linked module has a function that calls all initializers exactly if an input has an initializer
or names that function. Its body is in the code: one call for each initializer, by ascending priority
and then in the order of the inputs, of the function that the symbol of the initializer stands for in
the end.

The functions that the linker supplies are counted by a word. Nothing is said of the body where their
number is a positive multiple of `wordLimit`, so that the word is zero, but inputs of fewer than
`wordLimit` bytes have no such number. -/
theorem link_constructors {inputs : List (String × Bytes)} {options : Options} {output : Bytes}
    (linked : link inputs options = .ok output) :
    ∃ session program interface contents, Session.addAll inputs .empty = .ok () session ∧
      Program.ofInputs inputs options = .ok program ∧ program.modules = session.modules ∧
      program.Written interface contents output ∧
      session.symbols.HasCaller program.modules program.symbols ∧
      ∀ id functions, program.symbols.CallsAt id functions →
        (program.symbols.syntheticFunctions.length % wordLimit ≠ 0 → ∃ calls indices,
          program.CallsInitializers contents id calls indices) ∧
        (totalSize inputs < wordLimit →
          program.symbols.syntheticFunctions.length % wordLimit ≠ 0 ∧
          ∀ symbol index, program.functionIndex symbol = .ok index → index < wordLimit) := by
  obtain ⟨program, interface, decided, -, written⟩ := exists_written_of_link linked
  obtain ⟨session, added, decides⟩ := Program.decided_of_ofInputs decided
  have whole := Session.addAll_whole added
  have bounded := Program.bounded_of_ofInputs decided
  have has : session.symbols.HasCaller program.modules program.symbols :=
    SymbolTable.hasCaller_of_complete (whole.given.later SymbolTable.wellFormed_empty).1
      (whole.given.targets (by simp [SymbolTable.empty])) decides.symbols
  refine ⟨session, program, interface, _, added, decided, decides.modules.symm, written, has, ?_⟩
  intro id functions caller
  refine ⟨fun some => ?_, fun small => ⟨?_, fun symbol index here => ?_⟩⟩
  · exact Program.exists_callsInitializers bounded.wellFormed written has
      (written.codeCount_ne_zero some) caller
  · have listed : id ∈ program.symbols.syntheticFunctions :=
      (bounded.wellFormed.mem_synthetic .function id).2 ⟨_, caller.stands, rfl, rfl⟩
    exact Program.syntheticFunctions_mod_ne_zero decided small listed
  · exact (Program.measured_of_ofInputs decided).lt_wordLimit small
      (bounded.few_of_sum (.symbolFunction here) trivial)

/-- Two inputs, of which the first has an initializer that the second one defines. -/
def initializing : List (String × Bytes) :=
  [("initializer.o",
      [0, 97, 115, 109, 1, 0, 0, 0, 1, 4, 1, 96, 0, 0, 2, 9, 1, 3, 101, 110, 118, 1, 103, 0, 0, 0, 20,
        7, 108, 105, 110, 107, 105, 110, 103, 2, 8, 4, 1, 0, 16, 0, 6, 3, 1, 5, 0]),
    ("function.o",
      [0, 97, 115, 109, 1, 0, 0, 0, 1, 4, 1, 96, 0, 0, 3, 2, 1, 0, 10, 4, 1, 2, 0, 11, 0, 17, 7,
        108, 105, 110, 107, 105, 110, 103, 2, 8, 6, 1, 0, 0, 0, 1, 103])]

/-- What the linker's function calls is the function behind it. -/
theorem link_initializing_constructors :
    ∃ (program : Program) (contents : SectionId → Option Bytes) (calls : List PlacedInitializer)
      (indices : List Nat), Program.ofInputs initializing {} = .ok program ∧
      program.functionIndex 0 = .ok 1 ∧ program.symbols.CallsAt 1 [0] ∧
      program.CallsInitializers contents 1 calls indices := by
  have succeeds : (link initializing {}).isOk = true := by decide +kernel
  have facts : ((Program.ofInputs initializing {}).map fun program =>
      (program.functionIndex 0, program.symbols.lookup constructorCallerName,
        program.symbols.records[1]?, program.symbols.syntheticFunctions.length)) =
        .ok (.ok 1, some 1, some (SymbolTable.constructorCaller [0]), 1) := by decide +kernel
  obtain ⟨output, linked⟩ := exists_of_isOk succeeds
  obtain ⟨_, program, _, contents, -, decided, -, -, -, each⟩ := link_constructors linked
  rw [decided] at facts
  obtain ⟨index, facts⟩ := Prod.mk.inj (Except.ok.inj facts)
  obtain ⟨named, facts⟩ := Prod.mk.inj facts
  obtain ⟨stands, count⟩ := Prod.mk.inj facts
  have caller : program.symbols.CallsAt 1 [0] := ⟨named, stands⟩
  obtain ⟨calls, indices, called⟩ := (each 1 [0] caller).1 (by rw [count]; decide)
  exact ⟨program, contents, calls, indices, decided, index, caller, called⟩

end StaticLink
