import StaticLink.Proofs.Leb128
import StaticLink.Proofs.Program.Functions
import StaticLink.Proofs.Relocation.Copy

/-!
# Function bodies

Code is copied as a whole and never taken apart. Still the bodies in the linked module are those of
its functions in the order of their indices, if each input has one body for each function and no
relocation touches the size of a body.

* `IsBody`: a size with as many bytes behind it.
* `Bytes.cutLike`: some bytes in pieces as long as others.
* `ObjectModule.Cut`: the bodies of an input, however many they are; `ObjectModule.Split`: one for each
  of its functions.
* `Program.WritesBodies`: the bodies in the code of the linked module, by any count of bodies.
* `Program.HasBodies`: the bodies of the linked module.
* `link_bodies`: the code of a linked module is made of its bodies. Its count is what the inputs
  declare, and nothing compares this with what they have. `link_uncounted`: an input with a wrong
  count has its code left out.
-/

namespace StaticLink

/-- The bytes are a size, which takes the first `width` of them, and as many bytes as it says. -/
def IsBody (body : Bytes) (width : Nat) : Prop :=
  ∃ size : UInt32, Leb128.decodeUInt32 body = .ok (size, width) ∧
    body.length = width + size.toNat

theorem IsBody.length_pos {body : Bytes} {width : Nat} (sized : IsBody body width) :
    0 < body.length := by
  obtain ⟨size, decoded, length⟩ := sized
  have positive := (Leb128.prefixed_decodeUInt32 body size width decoded).1
  omega

/-- The size of a body takes one width. -/
theorem IsBody.width_unique {body : Bytes} {width other : Nat} (one : IsBody body width)
    (two : IsBody body other) : width = other := by
  obtain ⟨size, decoded, -⟩ := one
  obtain ⟨size', decoded', -⟩ := two
  rw [decoded] at decoded'
  exact (Prod.mk.inj (Except.ok.inj decoded')).2

/-- A body stays one while its length and its size stay. -/
theorem IsBody.of_prefix {body other : Bytes} {width : Nat} (sized : IsBody body width)
    (length : other.length = body.length)
    (same : ∀ i, i < width → other[i]? = body[i]?) : IsBody other width := by
  obtain ⟨size, decoded, whole⟩ := sized
  obtain ⟨-, first, rest, rfl, rfl, again⟩ :=
    Leb128.prefixed_decodeUInt32 body size width decoded
  refine ⟨size, ?_, length.trans whole⟩
  have start : other.take first.length = first := by
    apply List.ext_getElem?
    intro i
    rw [List.getElem?_take]
    split
    · next inside => rw [same i inside, List.getElem?_append_left inside]
    · next outside => rw [List.getElem?_eq_none (Nat.le_of_not_lt outside)]
  rw [← List.take_append_drop first.length other, start]
  exact again _

/-! ## Pieces of bytes -/

namespace Bytes

variable {pieces : List Bytes} {piece bytes : Bytes} {i k : Nat}

/-- Where piece `i` starts when the pieces stand one behind the other. -/
def startOf (pieces : List Bytes) (i : Nat) : Nat := (pieces.take i).flatten.length

theorem startOf_succ (here : pieces[i]? = some piece) :
    startOf pieces (i + 1) = startOf pieces i + piece.length := by
  rw [startOf, List.take_add_one, here, List.flatten_append, List.length_append]
  simp [startOf]

theorem startOf_le (pieces : List Bytes) (before : i ≤ k) : startOf pieces i ≤ startOf pieces k := by
  obtain ⟨more, rfl⟩ := Nat.exists_eq_add_of_le before
  rw [startOf, startOf, List.take_add, List.flatten_append, List.length_append]
  exact Nat.le_add_right _ _

theorem startOf_le_length (pieces : List Bytes) (i : Nat) :
    startOf pieces i ≤ pieces.flatten.length := by
  have all := startOf_le pieces (Nat.le_max_left i pieces.length)
  rw [startOf, startOf, List.take_of_length_le (Nat.le_max_right i pieces.length)] at all
  exact all

/-- A piece ends where the pieces end, or before. -/
theorem startOf_add_le (here : pieces[i]? = some piece) :
    startOf pieces i + piece.length ≤ pieces.flatten.length := by
  rw [← startOf_succ here]
  exact startOf_le_length pieces (i + 1)

/-- Pieces of which none is empty are no more than their bytes. -/
theorem length_le_length_flatten (some : ∀ piece ∈ pieces, 0 < piece.length) :
    pieces.length ≤ pieces.flatten.length := by
  induction pieces with
  | nil => exact Nat.le_refl 0
  | cons piece rest ih =>
    have first := some piece List.mem_cons_self
    have others := ih fun other member => some other (List.mem_cons_of_mem piece member)
    rw [List.flatten_cons, List.length_append, List.length_cons]
    omega

theorem length_window {start width : Nat} (inside : start + width ≤ bytes.length) :
    (bytes.window start width).length = width := by
  rw [window, List.length_take, List.length_drop]
  omega

/-- The bytes in pieces that are as long as `pieces`. -/
def cutLike : (pieces : List Bytes) → (bytes : Bytes) → List Bytes
  | [], _ => []
  | piece :: rest, bytes => bytes.take piece.length :: cutLike rest (bytes.drop piece.length)

@[simp] theorem length_cutLike (pieces : List Bytes) (bytes : Bytes) :
    (cutLike pieces bytes).length = pieces.length := by
  induction pieces generalizing bytes with
  | nil => rfl
  | cons piece rest ih => rw [cutLike, List.length_cons, ih, List.length_cons]

/-- Bytes of the same length are cut without a rest. -/
theorem flatten_cutLike (length : bytes.length = pieces.flatten.length) :
    (cutLike pieces bytes).flatten = bytes := by
  induction pieces generalizing bytes with
  | nil => exact (List.length_eq_zero_iff.1 length).symm
  | cons piece rest ih =>
    rw [List.flatten_cons, List.length_append] at length
    have behind : (bytes.drop piece.length).length = rest.flatten.length := by
      rw [List.length_drop, length, Nat.add_sub_cancel_left]
    rw [cutLike, List.flatten_cons, ih behind, List.take_append_drop]

/-- A piece of the bytes is as long as the other piece at its place, and starts where that starts. -/
theorem getElem?_cutLike (here : pieces[i]? = some piece) :
    (cutLike pieces bytes)[i]? = some (bytes.window (startOf pieces i) piece.length) := by
  induction pieces generalizing bytes i with
  | nil => cases here
  | cons first rest ih =>
    cases i with
    | zero =>
      cases here
      rfl
    | succ i =>
      have step : startOf (first :: rest) (i + 1) = first.length + startOf rest i := by
        simp [startOf]
      rw [cutLike, List.getElem?_cons_succ, ih here, step, window, List.drop_drop, window]

/-- The window of a piece among the pieces is this piece. -/
theorem window_flatten (here : pieces[i]? = some piece) :
    window pieces.flatten (startOf pieces i) piece.length = piece := by
  induction pieces generalizing i with
  | nil => cases here
  | cons first rest ih =>
    cases i with
    | zero =>
      cases here
      rw [List.flatten_cons]
      exact List.take_left' rfl
    | succ i =>
      have step : startOf (first :: rest) (i + 1) = first.length + startOf rest i := by
        simp [startOf]
      rw [List.flatten_cons, step, window, ← List.drop_drop, List.drop_left' rfl]
      exact ih here

end Bytes

/-! ## The bodies of an input -/

/-- The code of a module is made of these bodies, however many functions there are, and each of its
relocations is for an operand inside a body, behind its size. -/
structure ObjectModule.Cut (module : ObjectModule) (bodies : List Bytes) : Prop where
  sized : ∀ body ∈ bodies, ∃ width, IsBody body width
  without : module.section? .code = none → bodies = []
  whole : ∀ found, module.section? .code = some found →
    module.slice found.header.payload = .ok bodies.flatten
  inside : ∀ found, module.section? .code = some found → ∀ relocation ∈ found.relocations,
    ∃ k body width, bodies[k]? = some body ∧ IsBody body width ∧
      found.header.payload.start + (Bytes.startOf bodies k + width) ≤ found.position relocation ∧
      found.position relocation + relocation.kind.encoding.width ≤
        found.header.payload.start + (Bytes.startOf bodies k + body.length)

/-- The same, with one body for each function. -/
structure ObjectModule.Split (module : ObjectModule) (bodies : List Bytes) : Prop
    extends module.Cut bodies where
  one : bodies.length = module.functions.size

namespace ObjectModule.Cut

variable {module : ObjectModule} {bodies : List Bytes} {body : Bytes} {found : Section}
  {i j width : Nat}

/-- The size of a body is not touched by relocations. -/
theorem not_covers (cut : module.Cut bodies) (first : module.section? .code = some found)
    (here : bodies[i]? = some body) (sized : IsBody body width) (small : j < width)
    {relocation : Relocation} (member : relocation ∈ found.relocations) :
    ¬ found.Covers found.header.payload.start relocation (Bytes.startOf bodies i + j) := by
  obtain ⟨k, other, width', there, sized', after, before⟩ :=
    cut.inside found first relocation member
  have fits : width ≤ body.length := by
    obtain ⟨size, -, length⟩ := sized
    omega
  have next := Bytes.startOf_succ here
  have next' := Bytes.startOf_succ there
  -- The operand is in a body before, in this body behind its size, or in a body after.
  unfold Section.Covers Section.start
  rcases Nat.lt_trichotomy k i with earlier | same | later
  · have := Bytes.startOf_le bodies (show k + 1 ≤ i from earlier)
    omega
  · subst same
    rw [here] at there
    cases there
    have := sized.width_unique sized'
    omega
  · have := Bytes.startOf_le bodies (show i + 1 ≤ k from later)
    omega

/-- Relocated code is made of bodies as long as those of the input. In each of them what is not an
operand stays, so that it is a body again. -/
theorem relocated {program : Program} {owner : ModuleId} {result : Bytes}
    (cut : module.Cut bodies) (input : program.input owner = .ok module)
    (first : module.section? .code = some found)
    (h : program.relocate owner found found.header.payload = .ok result) :
    result.length = bodies.flatten.length ∧ ∀ i original, bodies[i]? = some original →
      let body := result.window (Bytes.startOf bodies i) original.length
      body.length = original.length ∧ (∃ width, IsBody body width) ∧
        ∀ j, (∀ relocation ∈ found.relocations, ¬ found.Covers found.header.payload.start
          relocation (Bytes.startOf bodies i + j)) → body[j]? = original[j]? := by
  obtain ⟨_, bytes, again, slice, length, frame⟩ := Program.relocate_frame h
  cases input.symm.trans again
  cases (cut.whole found first).symm.trans slice
  refine ⟨length, ?_⟩
  intro i original here
  have size : (result.window (Bytes.startOf bodies i) original.length).length =
      original.length := Bytes.length_window (by rw [length]; exact Bytes.startOf_add_le here)
  have same (j : Nat) (outside : ∀ relocation ∈ found.relocations,
      ¬ found.Covers found.header.payload.start relocation (Bytes.startOf bodies i + j)) :
      (result.window (Bytes.startOf bodies i) original.length)[j]? = original[j]? := by
    have stays : result[Bytes.startOf bodies i + j]? =
        bodies.flatten[Bytes.startOf bodies i + j]? := by
      apply frame
      intro relocation member
      exact outside relocation (Array.mem_toList_iff.1 (List.mem_of_mem_filter member))
    have old := congrArg (fun bytes : Bytes => bytes[j]?) (Bytes.window_flatten here)
    rw [← old, Bytes.getElem?_window, Bytes.getElem?_window, stays]
  obtain ⟨width, sized⟩ := cut.sized original (List.mem_of_getElem? here)
  refine ⟨size, ⟨width, sized.of_prefix size ?_⟩, same⟩
  intro j small
  apply same
  intro relocation member
  exact cut.not_covers first here sized small member

end ObjectModule.Cut

namespace Program

variable {program : Program} {owner : ModuleId} {module : ObjectModule} {found : Section}
  {body : Bytes} {id : SymbolId}

/-! ## The bodies that the linker supplies -/

theorem isBody_functionBody (instructions : Bytes)
    (small : (functionBody instructions).length < wordLimit) :
    ∃ width, IsBody (functionBody instructions) width := by
  unfold functionBody at small ⊢
  generalize 0 :: instructions ++ [Opcode.endExpression] = body at small ⊢
  rw [List.length_append] at small
  refine ⟨(encodeNat body.length).length, .ofNat body.length, ?_, ?_⟩
  · exact Leb128.decodeUInt32_ofUInt32 (.ofNat body.length) body
  · have fits : body.length < wordLimit := Nat.lt_of_le_of_lt (Nat.le_add_left _ _) small
    rw [List.length_append, UInt32.toNat_ofNat_of_lt' fits]

theorem exists_functionBody (h : program.syntheticBody id = .ok body) :
    ∃ instructions, body = functionBody instructions := by
  obtain ⟨symbol, -, h⟩ := bind_eq_ok.1 h
  split at h
  · obtain ⟨functions, -, rfl⟩ := return_eq_ok.1 h
    exact ⟨_, rfl⟩
  · cases h
    exact ⟨_, rfl⟩
  · cases h

/-! ## The bodies of the linked module -/

/-- The bodies of the linked module, in the order of the functions that it defines. -/
structure HasBodies (program : Program) (bodies : ModuleId → List Bytes) (emitted : List Bytes) :
    Prop where
  size : emitted.length = program.functionCount
  small : program.functionCount < wordLimit
  sized : ∀ body ∈ emitted, ∃ width, IsBody body width
  /-- The functions that the linker supplies come first. -/
  supplied : ∀ (k : Nat) (id : SymbolId), program.symbols.syntheticFunctions[k]? = some id →
    ∃ body, program.syntheticBody id = .ok body ∧ emitted[k]? = some body
  /-- A function of an input has its body, apart from operands, at its index. -/
  input : ∀ (owner : ModuleId) (module : ObjectModule) (i : Nat) (original : Bytes),
    program.modules[owner]? = some module → (bodies owner)[i]? = some original →
    ∃ found result body,
      module.section? .code = some found ∧
      program.relocate owner found found.header.payload = .ok result ∧
      body = result.window (Bytes.startOf (bodies owner) i) original.length ∧
      emitted[program.functionBase owner + i - program.imports.functions.length]? = some body ∧
      body.length = original.length ∧
      ∀ j, (∀ relocation ∈ found.relocations, ¬ found.Covers found.header.payload.start
        relocation (Bytes.startOf (bodies owner) i + j)) → body[j]? = original[j]?

/-- The copied code of all inputs, taken apart into bodies. -/
def cutPieces (bodies : ModuleId → List Bytes) (pieces : List Bytes) : List (List Bytes) :=
  pieces.zipIdx.map fun (piece, owner) => Bytes.cutLike (bodies owner) piece

theorem getElem?_cutPieces {bodies : ModuleId → List Bytes} {pieces : List Bytes} {piece : Bytes}
    (here : pieces[owner]? = some piece) :
    (cutPieces bodies pieces)[owner]? = some (Bytes.cutLike (bodies owner) piece) := by
  rw [cutPieces, List.getElem?_map, List.getElem?_zipIdx, here]
  simp

theorem flatten_cutPieces {bodies : ModuleId → List Bytes} {pieces : List Bytes}
    (lengths : ∀ owner piece, pieces[owner]? = some piece →
      piece.length = (bodies owner).flatten.length) :
    (cutPieces bodies pieces).flatten.flatten = pieces.flatten := by
  rw [List.flatten_flatten]
  congr 1
  apply List.ext_getElem?
  intro owner
  rw [List.getElem?_map]
  rcases here : pieces[owner]? with _ | piece
  · rw [List.getElem?_eq_none_iff.2 (by simpa [cutPieces] using here)]
    rfl
  · rw [getElem?_cutPieces here, Option.map_some, Bytes.flatten_cutLike (lengths owner piece here)]

/-- The copied code of each input, of which none is left out. -/
structure Pieces (program : Program) (bodies : ModuleId → List Bytes) (pieces : List Bytes) :
    Prop where
  count : pieces.length = program.modules.length
  length : ∀ (owner : ModuleId) (piece : Bytes), pieces[owner]? = some piece →
    piece.length = (bodies owner).flatten.length
  copied : ∀ (owner : ModuleId) (piece : Bytes) (i : Nat) (original : Bytes),
    pieces[owner]? = some piece → (bodies owner)[i]? = some original →
    ∃ module found, program.modules[owner]? = some module ∧ module.Cut (bodies owner) ∧
      module.section? .code = some found ∧
      program.relocate owner found found.header.payload = .ok piece

/-- Code that is copied comes in one piece for each input. -/
theorem exists_pieces {bodies : ModuleId → List Bytes} {bytes : Bytes}
    (cuts : ∀ (owner : ModuleId) (module : ObjectModule),
      program.modules[owner]? = some module → module.Cut (bodies owner))
    (h : program.relocateSections .code = .ok bytes) :
    ∃ pieces, bytes = pieces.flatten ∧ program.Pieces bodies pieces := by
  obtain ⟨pieces, whole, count, copied⟩ := exists_pieces_of_copySections h
  have each (owner : ModuleId) (piece : Bytes) (here : pieces[owner]? = some piece) :
      ∃ module, program.modules[owner]? = some module ∧
        (module.section? .code = none ∧ piece = [] ∨ ∃ found,
          module.section? .code = some found ∧
          program.relocate owner found found.header.payload = .ok piece) := by
    have small : owner < program.modules.length := by
      rw [← count]
      exact (List.getElem?_eq_some_iff.1 here).1
    have input := List.getElem?_eq_getElem small
    obtain ⟨other, there, done⟩ := copied owner _ input
    cases here.symm.trans there
    exact ⟨_, input, done⟩
  refine ⟨pieces, whole, count, ?_, ?_⟩
  · intro owner piece here
    obtain ⟨module, input, ⟨without, rfl⟩ | ⟨found, first, relocated⟩⟩ := each owner piece here
    · rw [(cuts owner module input).without without]
      rfl
    · exact ((cuts owner module input).relocated (existing_eq_ok.2 input) first relocated).1
  · intro owner piece i original here there
    obtain ⟨module, input, ⟨without, -⟩ | ⟨found, first, relocated⟩⟩ := each owner piece here
    · rw [(cuts owner module input).without without] at there
      cases there
    · exact ⟨module, found, input, cuts owner module input, first, relocated⟩

namespace Pieces

variable {bodies : ModuleId → List Bytes} {pieces : List Bytes} {count : ObjectModule → Nat}

theorem sizes (all : program.Pieces bodies pieces)
    (counted : ∀ (owner : ModuleId) (module : ObjectModule),
      program.modules[owner]? = some module → (bodies owner).length = count module)
    (owner : ModuleId) (module : ObjectModule) (list : List Bytes)
    (input : program.modules[owner]? = some module)
    (here : (cutPieces bodies pieces)[owner]? = some list) : list.length = count module := by
  have small : owner < pieces.length := by
    rw [all.count]
    exact (List.getElem?_eq_some_iff.1 input).1
  rw [getElem?_cutPieces (List.getElem?_eq_getElem small)] at here
  cases here
  rw [Bytes.length_cutLike]
  exact counted owner module input

theorem length_flatten (all : program.Pieces bodies pieces)
    (counted : ∀ (owner : ModuleId) (module : ObjectModule),
      program.modules[owner]? = some module → (bodies owner).length = count module) :
    (cutPieces bodies pieces).flatten.length = countAll count program.modules := by
  have lists : (cutPieces bodies pieces).length = program.modules.length := by
    rw [cutPieces, List.length_map, List.length_zipIdx, all.count]
  exact length_flatten_of_sizes count lists (all.sizes counted)

/-- A body of an input comes behind those of the inputs before it, and only operands change. -/
theorem input (all : program.Pieces bodies pieces)
    (counted : ∀ (owner : ModuleId) (module : ObjectModule),
      program.modules[owner]? = some module → (bodies owner).length = count module)
    {owner : ModuleId} {module : ObjectModule} {i : Nat} {original : Bytes}
    (input : program.modules[owner]? = some module)
    (there : (bodies owner)[i]? = some original) :
    ∃ found result body,
      module.section? .code = some found ∧
      program.relocate owner found found.header.payload = .ok result ∧
      body = result.window (Bytes.startOf (bodies owner) i) original.length ∧
      (cutPieces bodies pieces).flatten[countBefore count program.modules owner + i]? =
        some body ∧
      body.length = original.length ∧
      ∀ j, (∀ relocation ∈ found.relocations, ¬ found.Covers found.header.payload.start
        relocation (Bytes.startOf (bodies owner) i + j)) → body[j]? = original[j]? := by
  have small : owner < pieces.length := by
    rw [all.count]
    exact (List.getElem?_eq_some_iff.1 input).1
  have piece := List.getElem?_eq_getElem small
  obtain ⟨_, found, again, cut, first, relocated⟩ := all.copied owner _ i original piece there
  cases input.symm.trans again
  obtain ⟨length, -, same⟩ :=
    (cut.relocated (existing_eq_ok.2 input) first relocated).2 i original there
  refine ⟨found, pieces[owner], _, first, relocated, rfl, ?_, length, same⟩
  have inside : i < count module := by
    rw [← counted owner module input]
    exact (List.getElem?_eq_some_iff.1 there).1
  rw [getElem?_flatten_of_sizes count (all.sizes counted) input (getElem?_cutPieces piece) inside,
    Bytes.getElem?_cutLike there]

/-- What is cut out is a body. -/
theorem sized (all : program.Pieces bodies pieces) (member : body ∈ (cutPieces bodies pieces).flatten) :
    ∃ width, IsBody body width := by
  obtain ⟨list, listed, member⟩ := List.mem_flatten.1 member
  obtain ⟨⟨piece, owner⟩, here, rfl⟩ := List.mem_map.1 listed
  have here : pieces[owner]? = some piece := List.mk_mem_zipIdx_iff_getElem?.1 here
  obtain ⟨i, there⟩ := List.mem_iff_getElem?.1 member
  have small := (List.getElem?_eq_some_iff.1 there).1
  rw [Bytes.length_cutLike] at small
  have original := List.getElem?_eq_getElem small
  rw [Bytes.getElem?_cutLike original] at there
  cases there
  obtain ⟨module, found, input, cut, first, relocated⟩ := all.copied owner piece i _ here original
  exact ((cut.relocated (existing_eq_ok.2 input) first relocated).2 i _ original).2.1

end Pieces

/-- The bodies in the code of the linked module, where the code of each input is made of as many
bodies as `count` says: those that the linker supplies, and then one input after the other. -/
structure WritesBodies (program : Program) (count : ObjectModule → Nat)
    (bodies : ModuleId → List Bytes) (emitted : List Bytes) : Prop where
  size : emitted.length =
    program.symbols.syntheticFunctions.length + countAll count program.modules
  small : emitted.length < wordLimit
  sized : ∀ body ∈ emitted, ∃ width, IsBody body width
  supplied : ∀ (k : Nat) (id : SymbolId), program.symbols.syntheticFunctions[k]? = some id →
    ∃ body, program.syntheticBody id = .ok body ∧ emitted[k]? = some body
  /-- The bodies of an input come behind those of the inputs before it, and only operands change. -/
  input : ∀ (owner : ModuleId) (module : ObjectModule) (i : Nat) (original : Bytes),
    program.modules[owner]? = some module → (bodies owner)[i]? = some original →
    ∃ found result body,
      module.section? .code = some found ∧
      program.relocate owner found found.header.payload = .ok result ∧
      body = result.window (Bytes.startOf (bodies owner) i) original.length ∧
      emitted[program.symbols.syntheticFunctions.length +
        (countBefore count program.modules owner + i)]? = some body ∧
      body.length = original.length ∧
      ∀ j, (∀ relocation ∈ found.relocations, ¬ found.Covers found.header.payload.start
        relocation (Bytes.startOf (bodies owner) i + j)) → body[j]? = original[j]?

/-- Code that is written is made of bodies, as the code of the inputs is. -/
theorem exists_writesBodies {interface : Interface} {contents : SectionId → Option Bytes}
    {output : Bytes} {bodies : ModuleId → List Bytes} (count : ObjectModule → Nat)
    (written : program.Written interface contents output)
    (cuts : ∀ (owner : ModuleId) (module : ObjectModule),
      program.modules[owner]? = some module → module.Cut (bodies owner))
    (counted : ∀ (owner : ModuleId) (module : ObjectModule),
      program.modules[owner]? = some module → (bodies owner).length = count module)
    (any : UInt32.ofNat program.codeCount ≠ 0) :
    ∃ emitted, contents .code = some (encodeNat program.codeCount ++ emitted.flatten) ∧
      program.WritesBodies count bodies emitted := by
  obtain ⟨_, produced, here⟩ : ∃ bytes, program.codeEntries = .ok bytes ∧
      contents .code = some (encodeNat program.codeCount ++ bytes) := by
    rcases vectorContents_eq_ok (written.made .code) with ⟨none, -⟩ | ⟨-, some⟩
    · exact absurd none any
    · exact some
  obtain ⟨synthetic, supplied, produced⟩ := bind_eq_ok.1 produced
  obtain ⟨_, copied, rfl⟩ := return_eq_ok.1 produced
  obtain ⟨pieces, rfl, all⟩ := exists_pieces cuts copied
  obtain ⟨own, each⟩ := mapM_eq_ok supplied
  have whole : (synthetic ++ (cutPieces bodies pieces).flatten).flatten =
      synthetic.flatten ++ pieces.flatten := by
    rw [List.flatten_append, flatten_cutPieces all.length]
  have limit : (synthetic ++ (cutPieces bodies pieces).flatten).flatten.length < wordLimit := by
    have small := written.small .code _ here
    rw [List.length_append] at small
    rw [whole]
    exact Nat.lt_of_le_of_lt (Nat.le_add_left _ _) small
  have sized : ∀ body ∈ synthetic ++ (cutPieces bodies pieces).flatten,
      ∃ width, IsBody body width := by
    intro body member
    have within := (List.infix_of_mem_flatten member).length_le
    rcases List.mem_append.1 member with own | other
    · obtain ⟨k, there⟩ := List.mem_iff_getElem?.1 own
      obtain ⟨id, -, done⟩ := exists_item_of_mapM_eq_ok supplied there
      obtain ⟨instructions, rfl⟩ := exists_functionBody done
      exact isBody_functionBody instructions (Nat.lt_of_le_of_lt within limit)
    · exact all.sized other
  refine ⟨synthetic ++ (cutPieces bodies pieces).flatten, ?_, ?_, ?_, sized, ?_, ?_⟩
  · rw [whole]
    exact here
  · rw [List.length_append, own, all.length_flatten counted]
  · refine Nat.lt_of_le_of_lt (Bytes.length_le_length_flatten ?_) limit
    intro body member
    obtain ⟨width, is⟩ := sized body member
    exact is.length_pos
  · intro k id listed
    obtain ⟨body, done, there⟩ := each k id listed
    refine ⟨body, done, ?_⟩
    rw [List.getElem?_append_left (List.getElem?_eq_some_iff.1 there).1, there]
  · intro owner module i original input there
    obtain ⟨found, result, body, first, relocated, place, here, same⟩ := all.input counted input there
    refine ⟨found, result, body, first, relocated, place, ?_, same⟩
    rw [← own, List.getElem?_append_right (Nat.le_add_right _ _), Nat.add_sub_cancel_left, here]

/-- Code that is written is made of the bodies of the linked module. -/
theorem exists_hasBodies {interface : Interface} {contents : SectionId → Option Bytes}
    {output : Bytes} {bodies : ModuleId → List Bytes}
    (written : program.Written interface contents output)
    (splits : ∀ (owner : ModuleId) (module : ObjectModule),
      program.modules[owner]? = some module → module.Split (bodies owner))
    (any : UInt32.ofNat program.codeCount ≠ 0) :
    ∃ emitted, contents .code = some (encodeNat program.codeCount ++ emitted.flatten) ∧
      program.HasBodies bodies emitted := by
  obtain ⟨emitted, here, writes⟩ := exists_writesBodies (·.functions.size) written
    (fun owner module input => (splits owner module input).toCut)
    (fun owner module input => (splits owner module input).one) any
  have size : emitted.length = program.functionCount := writes.size
  refine ⟨emitted, here, size, by rw [← size]; exact writes.small, writes.sized, writes.supplied, ?_⟩
  intro owner module i original input there
  obtain ⟨found, result, body, first, relocated, is, place, same⟩ :=
    writes.input owner module i original input there
  refine ⟨found, result, body, first, relocated, is, ?_, same⟩
  rw [functionBase_sub_imports]
  exact place

/-- Where each input declares as many bodies as it has functions, the linked module does too. -/
theorem codeCount_eq (declared : ∀ module ∈ program.modules,
    module.declaredCount .code = module.functions.size) :
    UInt32.ofNat program.codeCount = UInt32.ofNat program.functionCount := by
  have same : program.codeCount % wordLimit = program.functionCount % wordLimit := by
    unfold codeCount functionCount
    rw [countAll_congr declared, Nat.mod_add_mod]
  exact UInt32.toNat_inj.1 same

end Program

/-- The code of a linked module is made of the bodies of its functions in the order of their indices,
where the code of each input is made of the bodies of its functions. What is written before it is
the count that the inputs declare, and without a count there is no code. This is the number of the
functions where each input declares as many bodies as it has functions. -/
theorem link_bodies {inputs : List (String × Bytes)} {options : Options} {output : Bytes}
    (linked : link inputs options = .ok output) :
    ∃ program interface contents, Program.ofInputs inputs options = .ok program ∧
      program.Written interface contents output ∧
      ∀ bodies : ModuleId → List Bytes,
        (∀ (owner : ModuleId) (module : ObjectModule), program.modules[owner]? = some module →
          module.Split (bodies owner)) →
        (UInt32.ofNat program.codeCount = 0 → contents .code = none) ∧
        (UInt32.ofNat program.codeCount ≠ 0 → ∃ emitted,
          contents .code = some (Program.encodeNat program.codeCount ++ emitted.flatten) ∧
          program.HasBodies bodies emitted) ∧
        ((∀ module ∈ program.modules, module.declaredCount .code = module.functions.size) →
          UInt32.ofNat program.codeCount = UInt32.ofNat program.functionCount) := by
  obtain ⟨program, interface, decided, -, written⟩ := exists_written_of_link linked
  refine ⟨program, interface, _, decided, written, ?_⟩
  intro bodies splits
  refine ⟨?_, Program.exists_hasBodies written splits, Program.codeCount_eq⟩
  intro none
  have made := written.made .code
  rw [Program.sectionContents, vectorContents, if_pos none] at made
  exact (Except.ok.inj made).symm

/-! ## Bodies with and without a count -/

/-- The number of functions of a module and its code, with the place and width of each operand. -/
structure CodeFacts where
  functions : Nat
  code : Option Bytes
  start : Nat
  places : List (Nat × Nat)
deriving DecidableEq

/-- What is known of the code of a module that has any. -/
def ObjectModule.codeFacts? (module : ObjectModule) : Option CodeFacts :=
  (module.section? .code).map fun found =>
    { functions := module.functions.size
      code := module.bytes.slice? found.header.payload
      start := found.header.payload.start
      places := found.relocations.toList.map fun relocation =>
        (found.position relocation, relocation.kind.encoding.width) }

theorem ObjectModule.cut_of_codeFacts? {module : ObjectModule} {bodies : List Bytes}
    {functions start : Nat} {places : List (Nat × Nat)}
    (facts : module.codeFacts? = some ⟨functions, some bodies.flatten, start, places⟩)
    (sized : ∀ body ∈ bodies, ∃ width, IsBody body width)
    (inside : ∀ place ∈ places, ∃ k body width, bodies[k]? = some body ∧ IsBody body width ∧
      start + (Bytes.startOf bodies k + width) ≤ place.1 ∧
      place.1 + place.2 ≤ start + (Bytes.startOf bodies k + body.length)) :
    module.functions.size = functions ∧ module.Cut bodies := by
  obtain ⟨found, first, facts⟩ := Option.map_eq_some_iff.1 facts
  obtain ⟨count, slice, rfl, rfl⟩ := CodeFacts.mk.inj facts
  refine ⟨count, sized, ?_, ?_, ?_⟩
  · intro none
    rw [first] at none
    cases none
  · intro other same
    cases first.symm.trans same
    exact existing_eq_ok.2 slice
  · intro other same relocation member
    cases first.symm.trans same
    exact inside _ (List.mem_map.2 ⟨relocation, Array.mem_toList_iff.2 member, rfl⟩)

theorem ObjectModule.split_of_codeFacts? {module : ObjectModule} {bodies : List Bytes}
    {start : Nat} {places : List (Nat × Nat)}
    (facts : module.codeFacts? = some ⟨bodies.length, some bodies.flatten, start, places⟩)
    (sized : ∀ body ∈ bodies, ∃ width, IsBody body width)
    (inside : ∀ place ∈ places, ∃ k body width, bodies[k]? = some body ∧ IsBody body width ∧
      start + (Bytes.startOf bodies k + width) ≤ place.1 ∧
      place.1 + place.2 ≤ start + (Bytes.startOf bodies k + body.length)) :
    module.Split bodies := by
  obtain ⟨count, cut⟩ := cut_of_codeFacts? facts sized inside
  exact ⟨cut, count.symm⟩

/-- The one body of each input of `pair`. -/
def bodiesOfPair : ModuleId → List Bytes
  | 0 => [[2, 0, 11]]
  | _ => [[8, 0, 16, 128, 128, 128, 128, 0, 11]]

/-- Both bodies are in the linked module. -/
theorem link_pair_bodies :
    ∃ (program : Program) (contents : SectionId → Option Bytes) (emitted : List Bytes),
      contents .code = some (Program.encodeNat 2 ++ emitted.flatten) ∧
      program.HasBodies bodiesOfPair emitted ∧ emitted.length = 2 := by
  have linked : link pair {} = .ok linkedPair := by decide +kernel
  have facts : ((Program.ofInputs pair {}).map fun program =>
      (program.modules.map (·.codeFacts?), program.codeCount, program.functionCount)) =
        .ok ([some ⟨1, some [2, 0, 11], 21, []⟩,
          some ⟨1, some [8, 0, 16, 128, 128, 128, 128, 0, 11], 21, [(24, 5)]⟩], 2, 2) := by
    decide +kernel
  obtain ⟨program, _, contents, decided, -, all⟩ := link_bodies linked
  rw [decided] at facts
  obtain ⟨modules, counts⟩ := Prod.mk.inj (Except.ok.inj facts)
  obtain ⟨declared, count⟩ := Prod.mk.inj counts
  have splits (owner : ModuleId) (module : ObjectModule)
      (here : program.modules[owner]? = some module) : module.Split (bodiesOfPair owner) := by
    have fact := congrArg (fun all => all[owner]?) modules
    rw [List.getElem?_map, here] at fact
    match owner, fact with
    | 0, fact =>
      refine ObjectModule.split_of_codeFacts? (Option.some.inj fact) ?_ (by simp)
      intro body member
      obtain rfl := List.mem_singleton.1 member
      exact ⟨1, 2, by decide, rfl⟩
    | 1, fact =>
      have body : IsBody [8, 0, 16, 128, 128, 128, 128, 0, 11] 1 := ⟨8, by decide, rfl⟩
      refine ObjectModule.split_of_codeFacts? (Option.some.inj fact) ?_ ?_
      · intro other member
        obtain rfl := List.mem_singleton.1 member
        exact ⟨1, body⟩
      · intro place member
        obtain rfl := List.mem_singleton.1 member
        exact ⟨0, _, 1, rfl, body, by decide, by decide⟩
  obtain ⟨-, emits, -⟩ := all bodiesOfPair splits
  rw [declared] at emits
  obtain ⟨emitted, code, has⟩ := emits (by decide)
  exact ⟨program, contents, emitted, code, has, has.size.trans count⟩

/-- An input with one function and its body, whose code section declares that it has no body. -/
def uncounted : List (String × Bytes) :=
  [("uncounted.o",
      [0, 97, 115, 109, 1, 0, 0, 0, 1, 4, 1, 96, 0, 0, 3, 2, 1, 0, 10, 4, 0, 2, 0, 11, 0, 17, 7,
        108, 105, 110, 107, 105, 110, 103, 2, 8, 6, 1, 0, 0, 0, 1, 102])]

/-- The linked module has the function and no code. -/
theorem link_uncounted :
    ∃ (program : Program) (interface : Interface) (contents : SectionId → Option Bytes)
      (output : Bytes) (module : ObjectModule),
      link uncounted {} = .ok output ∧ Program.ofInputs uncounted {} = .ok program ∧
      program.Written interface contents output ∧ program.modules = [module] ∧
      module.Split [[2, 0, 11]] ∧ program.functionCount = 1 ∧ contents .code = none := by
  have linked : (link uncounted {}).isOk = true := by decide +kernel
  have facts : ((Program.ofInputs uncounted {}).map fun program =>
      (program.modules.map (·.codeFacts?), program.codeCount, program.functionCount)) =
        .ok ([some ⟨1, some [2, 0, 11], 21, []⟩], 0, 1) := by
    decide +kernel
  rcases result : link uncounted {} with error | output
  · rw [result] at linked
    cases linked
  obtain ⟨program, interface, decided, -, written⟩ := exists_written_of_link result
  rw [decided] at facts
  obtain ⟨modules, counts⟩ := Prod.mk.inj (Except.ok.inj facts)
  obtain ⟨declared, count⟩ := Prod.mk.inj counts
  obtain ⟨module, only, fact⟩ := List.map_eq_singleton_iff.1 modules
  have made := written.made .code
  rw [Program.sectionContents, declared] at made
  refine ⟨program, interface, _, output, module, rfl, decided, written, only, ?_, count,
    (Except.ok.inj made).symm⟩
  refine ObjectModule.split_of_codeFacts? fact ?_ (by simp)
  intro body member
  obtain rfl := List.mem_singleton.1 member
  exact ⟨1, 2, by decide, rfl⟩

end StaticLink
