import StaticLink.Proofs.Output.Layout

/-!
# A layout without a limit

The layout of data segments gives up at the first number that is no address. Without a limit on
numbers there is always a layout. It only grows, so that the limited one fails exactly if the
unlimited one ends behind the last address.

* `Piece`: a data segment of an input; `pieces`, all of them in the order of the inputs.
* `DataLayout.unbounded`: their layout in numbers of any size.
* `alignUp?_eq`: rounding up to a power of two leaves the addresses exactly if its result does.
* `DataLayout.ofModules_eq`: the layout is the unlimited one, if that ends at an address.
-/

namespace StaticLink

/-- A data segment of an input, with its module and its position there. -/
structure Piece where
  owner : ModuleId
  position : Nat
  input : DataSegment
deriving DecidableEq

namespace Piece

/-- The output segment that it belongs to. -/
def output (piece : Piece) : String := DataSegment.outputName piece.input.info.name

/-- It starts at a multiple of this number. -/
def step (piece : Piece) : Nat := powerOfTwo piece.input.info.alignment.toNat

def key (piece : Piece) : ModuleId × Nat := (piece.owner, piece.position)

end Piece

/-- The data segments of a module. -/
def piecesOf (module : ObjectModule) (owner : ModuleId) : List Piece :=
  module.dataSegments.toList.zipIdx.map fun (input, position) => ⟨owner, position, input⟩

/-- The data segments of all modules, in the order of the modules and then of their positions. -/
def pieces (modules : List ObjectModule) : List Piece :=
  modules.zipIdx.flatMap fun (module, owner) => piecesOf module owner

/-- What a layout does when it runs out of addresses. -/
def exhausted : Error := .unsupported .addressSpaceExhausted

namespace OutputSegment

/-- Puts a data segment behind the chunks that are there, in numbers of any size. -/
def append (segment : OutputSegment) (piece : Piece) : OutputSegment :=
  let offset := alignUp segment.size piece.step
  { segment with
    size := offset + piece.input.size
    chunks := segment.chunks.push { owner := piece.owner, segment := piece.position, offset }
    alignment := max segment.alignment piece.input.info.alignment.toNat }

/-- Puts a data segment into the output segment where it belongs, which comes last if it is new. -/
def gather (piece : Piece) : List OutputSegment → List OutputSegment
  | [] => [append { name := piece.output } piece]
  | segment :: rest =>
    if segment.name = piece.output then segment.append piece :: rest
    else segment :: gather piece rest

/-- Gives the segments their addresses from `base` on, in numbers of any size, and the address after
the last one. -/
def arrange (base : Nat) : List OutputSegment → List OutputSegment × Nat
  | [] => ([], base)
  | segment :: rest =>
    let address := alignUp base (powerOfTwo segment.alignment)
    let (rest, stop) := arrange (address + segment.size) rest
    ({ segment with address } :: rest, stop)

end OutputSegment

namespace DataLayout

/-- The output segments without their addresses, in numbers of any size. -/
def gathered (modules : List ObjectModule) : List OutputSegment :=
  (pieces modules).foldl (fun segments piece => OutputSegment.gather piece segments) []

/-- The output segments in descending order of their names. -/
def descending (segments : List OutputSegment) : List OutputSegment :=
  segments.mergeSort fun first second => decide (second.name ≤ first.name)

/-- The layout of the data of `modules` from address `base` on, in numbers of any size. -/
def unbounded (modules : List ObjectModule) (base : Nat) : DataLayout :=
  let (segments, stop) := OutputSegment.arrange base (descending (gathered modules))
  { segments, stop }

end DataLayout

/-! ## Rounding -/

theorem powerOfTwo_dvd {small large : Nat} (le : small ≤ large) :
    powerOfTwo small ∣ powerOfTwo large := by
  have split : large = small + (large - small) := by omega
  rw [split, powerOfTwo_add]
  exact Nat.dvd_mul_right _ _

/-- Rounding up to a power of two leaves the addresses exactly if its result does. -/
theorem alignUp?_eq (offset : Nat) {exponent : Nat} (small : exponent < 32) :
    alignUp? offset (powerOfTwo exponent) = address? (alignUp offset (powerOfTwo exponent)) := by
  have positive := powerOfTwo_pos exponent
  -- The limit is a multiple of the power, so that nothing is between it and the multiple before.
  obtain ⟨count, limit⟩ : powerOfTwo exponent ∣ wordLimit :=
    powerOfTwo_32 ▸ powerOfTwo_dvd (Nat.le_of_lt small)
  have below := Nat.div_mul_le_self (offset + (powerOfTwo exponent - 1)) (powerOfTwo exponent)
  unfold alignUp? address?
  by_cases fits : offset + (powerOfTwo exponent - 1) < wordLimit
  · have fits' : alignUp offset (powerOfTwo exponent) < wordLimit := Nat.lt_of_le_of_lt below fits
    rw [if_pos fits, if_pos fits']
    rfl
  · have past : count ≤ (offset + (powerOfTwo exponent - 1)) / powerOfTwo exponent := by
      rw [Nat.le_div_iff_mul_le positive, Nat.mul_comm, ← limit]
      omega
    have past' : ¬ alignUp offset (powerOfTwo exponent) < wordLimit := by
      rw [alignUp, limit, Nat.mul_comm, Nat.not_lt]
      exact Nat.mul_le_mul_left _ past
    rw [if_neg fits, if_neg past']
    rfl

/-- The rounded number plus a size is an address, if anything. -/
theorem fitting_alignUp {α : Type} (offset size : Nat) {exponent : Nat} (small : exponent < 32)
    (next : Nat → Nat → Except Error α) :
    (do
      let start ← fitting (alignUp? offset (powerOfTwo exponent))
      let stop ← fitting (address? (start + size))
      next start stop) =
    if alignUp offset (powerOfTwo exponent) + size < wordLimit then
      next (alignUp offset (powerOfTwo exponent)) (alignUp offset (powerOfTwo exponent) + size)
    else .error exhausted := by
  rw [alignUp?_eq offset small]
  unfold address?
  by_cases fits : alignUp offset (powerOfTwo exponent) + size < wordLimit
  · rw [if_pos fits, if_pos (by omega)]
    show (do
      let stop ← fitting (if alignUp offset (powerOfTwo exponent) + size < wordLimit then _ else _)
      next _ stop) = _
    rw [if_pos fits]
    rfl
  · rw [if_neg fits]
    by_cases start : alignUp offset (powerOfTwo exponent) < wordLimit
    · rw [if_pos start]
      show (do
        let stop ← fitting (if alignUp offset (powerOfTwo exponent) + size < wordLimit then _ else _)
        next _ stop) = _
      rw [if_neg fits]
      rfl
    · rw [if_neg start]
      rfl

namespace OutputSegment

variable {segment : OutputSegment} {segments : List OutputSegment} {piece : Piece}
  {items : List Piece} {base : Nat}

/-! ## Gathering -/

/-- All output segments so far are small enough to have addresses. -/
def Fit (segments : List OutputSegment) : Prop := ∀ segment ∈ segments, segment.size < wordLimit

instance (segments : List OutputSegment) : Decidable (Fit segments) :=
  inferInstanceAs (Decidable (∀ segment ∈ segments, segment.size < wordLimit))

theorem fit_cons : Fit (segment :: segments) ↔ segment.size < wordLimit ∧ Fit segments :=
  List.forall_mem_cons

theorem push_eq (small : piece.input.info.alignment.toNat < 32) :
    segment.push piece.owner piece.position piece.input =
      if (segment.append piece).size < wordLimit then .ok (segment.append piece)
      else .error exhausted :=
  fitting_alignUp segment.size piece.input.size small _

/-- An output segment only grows. -/
theorem size_le_append (segment : OutputSegment) (piece : Piece) :
    segment.size ≤ (segment.append piece).size := by
  have above := le_alignUp segment.size (powerOfTwo_pos piece.input.info.alignment.toNat)
  show segment.size ≤ alignUp segment.size piece.step + piece.input.size
  unfold Piece.step
  omega

theorem fit_of_gather (fit : Fit (gather piece segments)) : Fit segments := by
  induction segments with
  | nil => exact List.forall_mem_nil _
  | cons segment rest ih =>
    unfold gather at fit
    split at fit
    · obtain ⟨small, others⟩ := fit_cons.1 fit
      have grown := size_le_append segment piece
      exact fit_cons.2 ⟨by omega, others⟩
    · obtain ⟨small, others⟩ := fit_cons.1 fit
      exact fit_cons.2 ⟨small, ih others⟩

theorem insert_eq (small : piece.input.info.alignment.toNat < 32) (fit : Fit segments) :
    insert piece.owner piece.position piece.input segments =
      if Fit (gather piece segments) then .ok (gather piece segments) else .error exhausted := by
  induction segments with
  | nil =>
    show (do return [← push { name := piece.output } piece.owner piece.position piece.input]) = _
    rw [push_eq small]
    unfold gather
    by_cases fits : (append { name := piece.output } piece).size < wordLimit
    · rw [if_pos fits, if_pos (fit_cons.2 ⟨fits, List.forall_mem_nil _⟩)]
      rfl
    · rw [if_neg fits, if_neg fun both => fits (fit_cons.1 both).1]
      rfl
  | cons segment rest ih =>
    obtain ⟨here, others⟩ := fit_cons.1 fit
    unfold insert gather
    show (if segment.name = piece.output then _ else _) = _
    by_cases same : segment.name = piece.output
    · rw [if_pos same, if_pos same, push_eq small]
      by_cases fits : (segment.append piece).size < wordLimit
      · rw [if_pos fits, if_pos (fit_cons.2 ⟨fits, others⟩)]
        rfl
      · rw [if_neg fits, if_neg fun both => fits (fit_cons.1 both).1]
        rfl
    · rw [if_neg same, if_neg same, ih others]
      by_cases fits : Fit (gather piece rest)
      · rw [if_pos fits, if_pos (fit_cons.2 ⟨here, fits⟩)]
        rfl
      · rw [if_neg fits, if_neg fun both => fits (fit_cons.1 both).2]
        rfl

theorem fit_of_foldl_gather
    (fit : Fit (items.foldl (fun segments piece => gather piece segments) segments)) :
    Fit segments := by
  induction items generalizing segments with
  | nil => exact fit
  | cons piece rest ih => exact fit_of_gather (ih fit)

/-- Data segments are gathered one after the other as long as there are addresses. -/
theorem foldlM_insert_eq (small : ∀ piece ∈ items, piece.input.info.alignment.toNat < 32)
    (fit : Fit segments) :
    items.foldlM (fun segments piece =>
        insert piece.owner piece.position piece.input segments) segments =
      if Fit (items.foldl (fun segments piece => gather piece segments) segments) then
        .ok (items.foldl (fun segments piece => gather piece segments) segments)
      else .error exhausted := by
  induction items generalizing segments with
  | nil =>
    rw [List.foldlM_nil, List.foldl_nil, if_pos fit]
    rfl
  | cons piece rest ih =>
    obtain ⟨one, others⟩ := List.forall_mem_cons.1 small
    rw [List.foldlM_cons, List.foldl_cons, insert_eq one fit]
    by_cases fits : Fit (gather piece segments)
    · rw [if_pos fits]
      exact ih others fits
    · -- What is too large stays so.
      rw [if_neg fits, if_neg fun final => fits (fit_of_foldl_gather final)]
      rfl

/-! ## Arranging -/

theorem le_arrange (base : Nat) (segments : List OutputSegment) :
    base ≤ (arrange base segments).2 := by
  induction segments generalizing base with
  | nil => exact Nat.le_refl base
  | cons segment rest ih =>
    have above := le_alignUp base (powerOfTwo_pos segment.alignment)
    have later := ih (alignUp base (powerOfTwo segment.alignment) + segment.size)
    show base ≤ (arrange (alignUp base (powerOfTwo segment.alignment) + segment.size) rest).2
    omega

theorem size_le_arrange (base : Nat) (member : segment ∈ segments) :
    segment.size ≤ (arrange base segments).2 := by
  induction segments generalizing base with
  | nil => cases member
  | cons first rest ih =>
    have later := le_arrange (alignUp base (powerOfTwo first.alignment) + first.size) rest
    show segment.size ≤ (arrange (alignUp base (powerOfTwo first.alignment) + first.size) rest).2
    rcases List.mem_cons.1 member with rfl | member
    · omega
    · exact ih _ member

/-- Output segments are given addresses as long as there are any. -/
theorem pack_eq (small : ∀ segment ∈ segments, segment.alignment < 32) (start : base < wordLimit) :
    pack base segments =
      if (arrange base segments).2 < wordLimit then .ok (arrange base segments)
      else .error exhausted := by
  induction segments generalizing base with
  | nil =>
    rw [if_pos (show (arrange base []).2 < wordLimit from start)]
    rfl
  | cons segment rest ih =>
    obtain ⟨one, others⟩ := List.forall_mem_cons.1 small
    have later := le_arrange (alignUp base (powerOfTwo segment.alignment) + segment.size) rest
    have step := fitting_alignUp base segment.size one fun address stop => do
      let (rest, stop) ← pack stop rest
      return ({ segment with address } :: rest, stop)
    refine step.trans ?_
    show _ = if (arrange (alignUp base (powerOfTwo segment.alignment) + segment.size) rest).2 <
      wordLimit then _ else _
    by_cases fits : alignUp base (powerOfTwo segment.alignment) + segment.size < wordLimit
    · rw [if_pos fits, ih others fits]
      by_cases all : (arrange (alignUp base (powerOfTwo segment.alignment) + segment.size) rest).2 <
        wordLimit
      · rw [if_pos all, if_pos all]
        rfl
      · rw [if_neg all, if_neg all]
        rfl
    · rw [if_neg fits, if_neg (by omega)]

/-- What holds of output segments with a first chunk, and goes on to hold with another one, holds of
all of them. -/
theorem forall_gather {P : OutputSegment → Prop} (new : P (append { name := piece.output } piece))
    (more : ∀ segment, P segment → P (segment.append piece))
    (all : ∀ segment ∈ segments, P segment) : ∀ segment ∈ gather piece segments, P segment := by
  induction segments with
  | nil => exact List.forall_mem_singleton.2 new
  | cons segment rest ih =>
    obtain ⟨one, others⟩ := List.forall_mem_cons.1 all
    unfold gather
    split
    · exact List.forall_mem_cons.2 ⟨more segment one, others⟩
    · exact List.forall_mem_cons.2 ⟨one, ih others⟩

theorem forall_foldl_gather {P : OutputSegment → Prop}
    (new : ∀ piece ∈ items, P (append { name := piece.output } piece))
    (more : ∀ piece ∈ items, ∀ segment, P segment → P (segment.append piece))
    (all : ∀ segment ∈ segments, P segment) :
    ∀ segment ∈ items.foldl (fun segments piece => gather piece segments) segments, P segment := by
  induction items generalizing segments with
  | nil => exact all
  | cons piece rest ih =>
    obtain ⟨first, others⟩ := List.forall_mem_cons.1 new
    obtain ⟨one, later⟩ := List.forall_mem_cons.1 more
    exact ih others later (forall_gather first one all)

end OutputSegment

namespace DataLayout

open OutputSegment

variable {modules : List ObjectModule} {module : ObjectModule} {owner : ModuleId} {piece : Piece}

/-! ## The whole layout -/

theorem mem_piecesOf : piece ∈ piecesOf module owner ↔
    piece.owner = owner ∧ module.dataSegments[piece.position]? = some piece.input := by
  rw [piecesOf, List.mem_map]
  constructor
  · rintro ⟨⟨input, position⟩, listed, rfl⟩
    exact ⟨rfl, Array.getElem?_toList ▸ List.mk_mem_zipIdx_iff_getElem?.1 listed⟩
  · rintro ⟨rfl, here⟩
    rw [← Array.getElem?_toList] at here
    exact ⟨(piece.input, piece.position), List.mk_mem_zipIdx_iff_getElem?.2 here, rfl⟩

theorem mem_pieces : piece ∈ pieces modules ↔
    dataSegment? modules piece.owner piece.position = some piece.input := by
  rw [pieces, List.mem_flatMap, dataSegment?_eq_some]
  constructor
  · rintro ⟨⟨module, owner⟩, listed, within⟩
    obtain ⟨rfl, here⟩ := mem_piecesOf.1 within
    exact ⟨module, List.mk_mem_zipIdx_iff_getElem?.1 listed, here⟩
  · rintro ⟨module, found, here⟩
    exact ⟨(module, piece.owner), List.mk_mem_zipIdx_iff_getElem?.2 found,
      mem_piecesOf.2 ⟨rfl, here⟩⟩

/-- A module that passes its check adds its data segments. -/
theorem insertModule_eq (inside : module.strayRelocation? = none) (segments : List OutputSegment) :
    insertModule segments module owner = (piecesOf module owner).foldlM (fun segments piece =>
      OutputSegment.insert piece.owner piece.position piece.input segments) segments := by
  have passes : module.checkDataRelocations = .ok () := by
    rw [ObjectModule.checkDataRelocations, inside]
  rw [insertModule, passes, piecesOf, List.foldlM_map]
  rfl

theorem merge_eq (inside : ∀ module ∈ modules, module.strayRelocation? = none) :
    merge modules = (pieces modules).foldlM (fun segments piece =>
      OutputSegment.insert piece.owner piece.position piece.input segments) [] := by
  rw [merge, pieces]
  have passes : ∀ item ∈ modules.zipIdx, item.1.strayRelocation? = none := by
    rintro ⟨module, owner⟩ listed
    exact inside module (List.mem_of_getElem? (List.mk_mem_zipIdx_iff_getElem?.1 listed))
  -- The modules are added one after the other to what is there.
  generalize ([] : List OutputSegment) = segments
  generalize modules.zipIdx = items at passes ⊢
  induction items generalizing segments with
  | nil => rfl
  | cons item rest ih =>
    obtain ⟨one, others⟩ := List.forall_mem_cons.1 passes
    obtain ⟨module, owner⟩ := item
    rw [List.foldlM_cons, List.flatMap_cons, List.foldlM_append]
    show insertModule segments module owner >>= _ = _
    rw [insertModule_eq one]
    exact bind_congr fun next => ih next others

/-- The layout is the one in numbers of any size, if that ends at an address. -/
theorem ofModules_eq
    (aligned : ∀ module ∈ modules, ∀ input ∈ module.dataSegments, input.info.alignment.toNat < 32)
    (inside : ∀ module ∈ modules, module.strayRelocation? = none) {base : Nat}
    (start : base < wordLimit) :
    ofModules modules base =
      if (unbounded modules base).stop < wordLimit then .ok (unbounded modules base)
      else .error exhausted := by
  have small : ∀ piece ∈ pieces modules, piece.input.info.alignment.toNat < 32 := by
    intro piece listed
    obtain ⟨module, found, here⟩ := dataSegment?_eq_some.1 (mem_pieces.1 listed)
    exact aligned module (List.mem_of_getElem? found) piece.input (Array.mem_of_getElem? here)
  have exponents : ∀ segment ∈ gathered modules, segment.alignment < 32 := by
    apply forall_foldl_gather (P := (·.alignment < 32))
    · intro piece listed
      exact Nat.max_lt.2 ⟨Nat.zero_lt_succ 31, small piece listed⟩
    · intro piece listed segment before
      exact Nat.max_lt.2 ⟨before, small piece listed⟩
    · exact List.forall_mem_nil _
  have sorted : (descending (gathered modules)).Perm (gathered modules) := List.mergeSort_perm _ _
  have merged : merge modules =
      if Fit (gathered modules) then .ok (gathered modules) else .error exhausted :=
    (merge_eq inside).trans (foldlM_insert_eq small (List.forall_mem_nil _))
  by_cases fits : Fit (gathered modules)
  · rw [if_pos fits] at merged
    have packed := pack_eq (fun segment member => exponents segment (sorted.mem_iff.1 member)) start
    unfold ofModules
    rw [merged]
    show (do
      let (segments, stop) ← pack base (descending (gathered modules))
      return DataLayout.mk segments stop) = _
    rw [packed]
    show _ = if (arrange base (descending (gathered modules))).2 < wordLimit then _ else _
    split <;> rfl
  · -- An output segment that is too large makes the layout end behind it.
    have large : ¬ (unbounded modules base).stop < wordLimit := by
      intro ends
      apply fits
      intro segment member
      have behind := size_le_arrange base (sorted.mem_iff.2 member)
      exact Nat.lt_of_le_of_lt behind ends
    rw [if_neg fits] at merged
    unfold ofModules
    rw [merged, if_neg large]
    rfl

end DataLayout

end StaticLink
