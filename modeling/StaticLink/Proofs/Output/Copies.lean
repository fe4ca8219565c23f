import Mathlib.Control.Monad.Basic
import StaticLink.Proofs.Output.Layout
import StaticLink.Proofs.Output.Sections
import StaticLink.Proofs.Relocation.Copy
import StaticLink.Proofs.Relocation.Demand

/-!
# The ranges that are copied out of inputs

* `Program.Copies`: the ranges of inputs that a linked module takes over.
* `Program.exists_relocate_of_copies`: in a module that was written they were all relocated, and
  the result is in the module.
* `link_relocates`: what the linked module has in the place of each of them.
-/

namespace StaticLink

namespace Program

variable {program : Program} {owner : ModuleId} {module : ObjectModule} {found : Section}
  {range : Span} {output : Bytes}

/-- The linked module takes over the bytes of `range` in input `owner`, a part of section
`found`. -/
inductive Copies (program : Program) :
    (owner : ModuleId) → (found : Section) → (range : Span) → Prop
  /-- The contents of a code section without their count, if there is any code. -/
  | code {owner : ModuleId} {module : ObjectModule} {found : Section}
      (input : program.input owner = .ok module) (first : module.section? .code = some found)
      (any : UInt32.ofNat program.codeCount ≠ 0) :
    Copies program owner found found.header.payload
  /-- The contents of a global section without their count, if there are any globals. -/
  | globals {owner : ModuleId} {module : ObjectModule} {found : Section}
      (input : program.input owner = .ok module) (first : module.section? .globals = some found)
      (any : UInt32.ofNat program.globalCount ≠ 0) :
    Copies program owner found found.header.payload
  /-- A data segment, if there are any. -/
  | data {owner : ModuleId} {module : ObjectModule} {found : Section} {position : Nat}
      {segment : DataSegment} (input : program.input owner = .ok module)
      (first : module.section? .data = some found)
      (here : module.dataSegments[position]? = some segment)
      (any : UInt32.ofNat program.layout.segments.length ≠ 0) :
    Copies program owner found segment.data

/-- What is copied is a part of a section of the input. -/
theorem Copies.mem_sections (copies : program.Copies owner found range)
    (input : program.modules[owner]? = some module) : found ∈ module.sections := by
  cases copies with
  | code here first | globals here first | data here first =>
    cases here.symm.trans (existing_eq_ok.2 input)
    exact Array.mem_of_find?_eq_some first

/-- What is copied for every input comes in one piece for each of them. An input without such a
section has an empty piece. -/
theorem exists_pieces_of_copySections {id : SectionId}
    {copy : ModuleId → ObjectModule → Section → Except Error Bytes} {contents : Bytes}
    (h : program.copySections id copy = .ok contents) :
    ∃ pieces : List Bytes, contents = pieces.flatten ∧ pieces.length = program.modules.length ∧
      ∀ (owner : ModuleId) (module : ObjectModule), program.modules[owner]? = some module →
        ∃ piece, pieces[owner]? = some piece ∧
          (module.section? id = none ∧ piece = [] ∨
            ∃ found, module.section? id = some found ∧ copy owner module found = .ok piece) := by
  obtain ⟨pieces, copied, rfl⟩ := return_eq_ok.1 h
  obtain ⟨count, each⟩ := mapM_eq_ok copied
  rw [List.length_zipIdx] at count
  refine ⟨pieces, rfl, count, fun owner module input => ?_⟩
  have listed : program.modules.zipIdx[owner]? = some (module, owner) := by
    rw [List.getElem?_zipIdx, input, Option.map_some, Nat.zero_add]
  obtain ⟨piece, done, here⟩ := each owner _ listed
  refine ⟨piece, here, ?_⟩
  dsimp only at done
  rcases first : module.section? id with _ | found
  · rw [first] at done
    cases done
    exact .inl ⟨rfl, rfl⟩
  · rw [first] at done
    exact .inr ⟨found, rfl, done⟩

/-- A section that is relocated for every input is relocated for this one. -/
theorem relocate_of_relocateSections {id : SectionId} {contents : Bytes}
    (h : program.relocateSections id = .ok contents) (input : program.input owner = .ok module)
    (first : module.section? id = some found) :
    ∃ result, program.relocate owner found found.header.payload = .ok result ∧
      result <:+: contents := by
  obtain ⟨pieces, copied, rfl⟩ := return_eq_ok.1 h
  have member : (module, owner) ∈ program.modules.zipIdx := by
    rw [List.mk_mem_zipIdx_iff_getElem?]
    exact existing_eq_ok.1 input
  obtain ⟨piece, among, here⟩ := exists_of_mapM_eq_ok copied member
  dsimp only at here
  rw [first] at here
  exact ⟨piece, here, List.infix_of_mem_flatten among⟩

/-- A chunk of an output segment is relocated and put into it. -/
theorem chunkContents_of_fillChunks {size written : Nat} {chunks : List Chunk} {chunk : Chunk}
    {contents : Bytes} (h : program.fillChunks size written chunks = .ok contents)
    (member : chunk ∈ chunks) :
    ∃ result, program.chunkContents chunk = .ok result ∧ result <:+: contents := by
  induction chunks generalizing written contents with
  | nil => cases member
  | cons first rest ih =>
    obtain ⟨piece, here, h⟩ := bind_eq_ok.1 h
    obtain ⟨behind, later, rfl⟩ := return_eq_ok.1 h
    rcases List.mem_cons.1 member with rfl | member
    · exact ⟨piece, here, List.infix_append _ piece behind⟩
    · obtain ⟨result, there, within⟩ := ih later member
      exact ⟨result, there, within.trans (List.suffix_append _ behind).isInfix⟩

theorem chunkContents_of_dataEntries {segment : OutputSegment} {chunk : Chunk} {contents : Bytes}
    (h : program.dataEntries = .ok contents) (among : segment ∈ program.layout.segments)
    (member : chunk ∈ segment.chunks) :
    ∃ result, program.chunkContents chunk = .ok result ∧ result <:+: contents := by
  obtain ⟨entries, each, rfl⟩ := return_eq_ok.1 h
  obtain ⟨entry, listed, here⟩ := exists_of_mapM_eq_ok each among
  obtain ⟨filled, fill, rfl⟩ := return_eq_ok.1 here
  obtain ⟨result, copied, within⟩ :=
    chunkContents_of_fillChunks fill (Array.mem_toList_iff.2 member)
  have behind := within.trans (List.suffix_append
    (segmentHeader segment.address ++ encodeNat segment.size) filled).isInfix
  exact ⟨result, copied, behind.trans (List.infix_of_mem_flatten listed)⟩

/-- Every range that a linked module takes over was relocated, and the result is in the module. -/
theorem exists_relocate_of_copies {base : Nat} (contents : program.Contents output)
    (layout : DataLayout.ofModules program.modules base = .ok program.layout)
    (copies : program.Copies owner found range) :
    ∃ result, program.relocate owner found range = .ok result ∧ result <:+: output := by
  cases copies with
  | code input first any =>
    obtain ⟨entries, produced, within⟩ := contents.code any
    obtain ⟨supplied, -, produced⟩ := bind_eq_ok.1 produced
    obtain ⟨copied, relocated, rfl⟩ := return_eq_ok.1 produced
    obtain ⟨result, here, inside⟩ := relocate_of_relocateSections relocated input first
    exact ⟨result, here, inside.trans ((List.suffix_append _ copied).isInfix.trans within)⟩
  | globals input first any =>
    obtain ⟨entries, produced, within⟩ := contents.globals any
    obtain ⟨copied, relocated, rfl⟩ := return_eq_ok.1 produced
    obtain ⟨result, here, inside⟩ := relocate_of_relocateSections relocated input first
    exact ⟨result, here, inside.trans ((List.suffix_append _ copied).isInfix.trans within)⟩
  | @data module _ position segment input first here any =>
    obtain ⟨entries, produced, within⟩ := contents.data any
    obtain ⟨output, among, chunk, member, rfl, rfl⟩ :=
      (DataLayout.placed_of_ofModules layout).exists_chunk
        (dataSegment?_eq_some.2 ⟨module, existing_eq_ok.1 input, here⟩)
    obtain ⟨result, copied, inside⟩ := chunkContents_of_dataEntries produced among member
    unfold chunkContents at copied
    obtain ⟨again, same, copied⟩ := bind_eq_ok.1 copied
    cases input.symm.trans same
    simp only [first, here] at copied
    exact ⟨result, copied, inside.trans within⟩

/-- The bytes `result` are `original`, the bytes of `range` in input `owner`, with every operand
that starts there as its relocation demands. -/
structure Copied (program : Program) (owner : ModuleId) (found : Section) (range : Span)
    (original result : Bytes) : Prop where
  length : result.length = range.size
  /-- The bytes outside of the operands are those of the input. -/
  frame : ∀ i, (∀ relocation ∈ found.operands range, ¬ found.Covers range.start relocation i) →
    result[i]? = original[i]?
  /-- Each operand is what is demanded in view of what it was in the input, as far as an operand of
  its encoding can hold it. -/
  operand : ∀ relocation ∈ found.operands range,
    let start := found.start range.start relocation
    let encoding := relocation.kind.encoding
    start + encoding.width ≤ range.size ∧ ∃ current value,
      encoding.decode (original.window start encoding.width) = .ok current ∧
      program.Demands owner relocation current value ∧
      encoding.decode (result.window start encoding.width) = .ok (encoding.reduce value)
  /-- The relocations could come in any other order. -/
  permuted : ∀ shuffled : Section, shuffled.header = found.header →
    shuffled.relocations.toList.Perm found.relocations.toList →
    program.relocate owner shuffled range = .ok result

theorem copied_of_relocate {result : Bytes} (apart : found.OperandsApart range)
    (h : program.relocate owner found range = .ok result) :
    ∃ module original, program.input owner = .ok module ∧ module.slice range = .ok original ∧
      program.Copied owner found range original result := by
  obtain ⟨module, original, input, slice, relocated⟩ := (relocate_eq_ok_iff apart).1 h
  have size : original.length = range.size := Bytes.length_of_slice? (existing_eq_ok.1 slice)
  refine ⟨module, original, input, slice, relocated.length.trans size, relocated.frame, ?_, ?_⟩
  · intro relocation member
    obtain ⟨inside, current, value, old, computed, new⟩ := relocated.operand relocation member
    refine ⟨by omega, current, value, old, demands_of_operandValue computed, ?_⟩
    rw [new, Relocation.Encoding.decode_encode]
  · intro shuffled header perm
    exact relocate_perm apart header perm h

end Program

/-- Whatever a successful link takes over from an input is in the linked module with its length and
its bytes, apart from the operands of relocations. Where these do not overlap, each of them has
become what its symbol demands, whatever the order of the relocations. -/
theorem link_relocates {inputs : List (String × Bytes)} {options : Options} {output : Bytes}
    (linked : link inputs options = .ok output) :
    ∃ program, Program.ofInputs inputs options = .ok program ∧
      ∀ owner found range, program.Copies owner found range → found.OperandsApart range →
        ∃ module original result, program.input owner = .ok module ∧
          module.slice range = .ok original ∧
          program.relocate owner found range = .ok result ∧ result <:+: output ∧
          program.Copied owner found range original result := by
  obtain ⟨program, decided, contents⟩ := exists_program_of_link linked
  obtain ⟨session, -, parts⟩ := Program.decided_of_ofInputs decided
  refine ⟨program, decided, ?_⟩
  intro owner found range copies apart
  obtain ⟨result, relocated, within⟩ := Program.exists_relocate_of_copies contents parts.layout copies
  obtain ⟨module, original, input, slice, copied⟩ := Program.copied_of_relocate apart relocated
  exact ⟨module, original, result, input, slice, relocated, within, copied⟩

/-- An input with a function that does nothing, and one with a function that calls itself. -/
def pair : List (String × Bytes) :=
  [("callee.o",
      [0, 97, 115, 109, 1, 0, 0, 0, 1, 4, 1, 96, 0, 0, 3, 2, 1, 0, 10, 4, 1, 2, 0, 11, 0, 17, 7,
        108, 105, 110, 107, 105, 110, 103, 2, 8, 6, 1, 0, 0, 0, 1, 102]),
    ("caller.o",
      [0, 97, 115, 109, 1, 0, 0, 0, 1, 4, 1, 96, 0, 0, 3, 2, 1, 0, 10, 10, 1, 8, 0, 16, 128, 128,
        128, 128, 0, 11, 0, 17, 7, 108, 105, 110, 107, 105, 110, 103, 2, 8, 6, 1, 0, 0, 0, 1, 103,
        0, 16, 10, 114, 101, 108, 111, 99, 46, 67, 79, 68, 69, 2, 1, 0, 4, 0])]

/-- What they are linked to. -/
def linkedPair : Bytes :=
  [0, 97, 115, 109, 1, 0, 0, 0, 1, 135, 128, 128, 128, 0, 2, 96, 0, 0, 96, 0, 0, 3, 131, 128, 128,
   128, 0, 2, 0, 1, 4, 133, 128, 128, 128, 0, 1, 112, 1, 1, 1, 5, 131, 128, 128, 128, 0, 1, 0, 2,
   6, 136, 128, 128, 128, 0, 1, 127, 1, 65, 128, 128, 8, 11, 7, 138, 128, 128, 128, 0, 1, 6, 109,
   101, 109, 111, 114, 121, 2, 0, 10, 141, 128, 128, 128, 0, 2, 2, 0, 11, 8, 0, 16, 129, 128, 128,
   128, 0, 11]

/-- The relocations of the code of the second input, and the number of functions. -/
def secondCode (program : Program) : Except Error (Option (Array Relocation) × Nat) :=
  (program.input 1).map fun module =>
    ((module.section? .code).map (·.relocations), program.codeCount)

/-- The code of the second input of `pair` is copied with the relocation of its call. -/
theorem link_pair_relocates :
    ∃ (program : Program) (module : ObjectModule) (found : Section) (original result : Bytes),
      program.input 1 = .ok module ∧ module.section? .code = some found ∧
      found.relocations = #[⟨.functionIndexLeb, 4, 0, 0⟩] ∧ result <:+: linkedPair ∧
      program.Copied 1 found found.header.payload original result := by
  have linked : link pair {} = .ok linkedPair := by decide +kernel
  have facts : (Program.ofInputs pair {} >>= secondCode) =
      .ok (some #[⟨.functionIndexLeb, 4, 0, 0⟩], 2) := by decide +kernel
  obtain ⟨program, decided, copies⟩ := link_relocates linked
  rw [decided] at facts
  have second : secondCode program = .ok (some #[⟨.functionIndexLeb, 4, 0, 0⟩], 2) := facts
  rcases input : program.input 1 with error | module
  · rw [secondCode, input] at second
    cases second
  · rw [secondCode, input] at second
    obtain ⟨code, count⟩ := Prod.mk.inj (Except.ok.inj second)
    obtain ⟨found, first, relocations⟩ := Option.map_eq_some_iff.1 code
    have any : UInt32.ofNat program.codeCount ≠ 0 := by
      rw [count]
      decide
    have apart : found.OperandsApart found.header.payload := by
      rw [Section.OperandsApart, Section.operands, relocations]
      exact (List.pairwise_singleton _ _).filter _
    obtain ⟨_, original, result, -, -, -, within, copied⟩ :=
      copies 1 found found.header.payload (.code input first any) apart
    exact ⟨program, module, found, original, result, input, first, relocations, within, copied⟩

end StaticLink
