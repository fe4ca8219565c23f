import StaticLink.Proofs.Layout.Unbounded
import StaticLink.Proofs.StableSort

/-!
# What is gathered in an output segment

* `Piece.Before`: the order of the inputs; `pieces_pairwise`, the list of all data segments is in it.
* `OutputSegment.Stacks`: some data segments one behind the other, each with as few bytes before it
  as its alignment allows.
* `OutputSegment.Grouped`: an output segment stacks the data segments that belong to it.
* `OutputSegment.grouped_gathered`: so does every output segment, and every data segment is in one.
* `OutputSegment.Snug`: output segments one behind the other in the same way.
-/

namespace StaticLink

variable {modules : List ObjectModule} {module : ObjectModule} {owner : ModuleId}
  {piece : Piece} {items seen : List Piece}

/-! ## The order of the inputs -/

/-- The order of the modules, and of the positions in one of them. -/
def Piece.Before (first second : Piece) : Prop :=
  first.owner < second.owner ∨ first.owner = second.owner ∧ first.position < second.position

theorem pieces_pairwise (modules : List ObjectModule) :
    (pieces modules).Pairwise Piece.Before := by
  rw [pieces, List.pairwise_flatMap]
  constructor
  · rintro ⟨module, owner⟩ -
    show (piecesOf module owner).Pairwise Piece.Before
    rw [piecesOf, List.pairwise_map]
    exact (pairwise_zipIdx _).imp fun less => Or.inr ⟨rfl, less⟩
  · refine (pairwise_zipIdx modules).imp ?_
    rintro ⟨module, owner⟩ ⟨other, behind⟩ less first one second two
    obtain ⟨rfl, -⟩ := DataLayout.mem_piecesOf.1 one
    obtain ⟨rfl, -⟩ := DataLayout.mem_piecesOf.1 two
    exact Or.inl less

namespace OutputSegment

variable {segment : OutputSegment} {segments : List OutputSegment} {chunk : Chunk}
  {chunks : List Chunk} {written stop base : Nat}

/-! ## One behind the other -/

/-- The chunks are these data segments one behind the other, from `written` up to `stop`. Each starts
at the first multiple of its step. -/
inductive Stacks : (written : Nat) → (items : List Piece) → (chunks : List Chunk) → (stop : Nat) → Prop
  | nil {written : Nat} : Stacks written [] [] written
  | cons {written stop offset : Nat} {piece : Piece} {items : List Piece} {chunks : List Chunk}
      (aligned : piece.step ∣ offset) (behind : written ≤ offset) (near : offset < written + piece.step)
      (rest : Stacks (offset + piece.input.size) items chunks stop) :
    Stacks written (piece :: items) (⟨piece.owner, piece.position, offset⟩ :: chunks) stop

/-- Another data segment at the end. -/
theorem Stacks.concat (stacked : Stacks written items chunks stop) (piece : Piece) :
    Stacks written (items ++ [piece])
      (chunks ++ [⟨piece.owner, piece.position, alignUp stop piece.step⟩])
      (alignUp stop piece.step + piece.input.size) := by
  induction stacked with
  | nil =>
    have positive := powerOfTwo_pos piece.input.info.alignment.toNat
    exact .cons (dvd_alignUp _ _) (le_alignUp _ positive) (alignUp_lt _ positive) .nil
  | cons aligned behind near rest ih => exact .cons aligned behind near ih

/-- The chunks have the modules and positions of the data segments. -/
theorem Stacks.keys (stacked : Stacks written items chunks stop) :
    chunks.map (fun chunk => (chunk.owner, chunk.segment)) = items.map Piece.key := by
  induction stacked with
  | nil => rfl
  | cons aligned behind near rest ih =>
    rw [List.map_cons, List.map_cons, ih]
    rfl

/-- A chunk is one of the data segments, and lies in between. -/
theorem Stacks.inside (stacked : Stacks written items chunks stop) :
    written ≤ stop ∧ ∀ chunk ∈ chunks, ∃ piece ∈ items,
      chunk.owner = piece.owner ∧ chunk.segment = piece.position ∧ piece.step ∣ chunk.offset ∧
        written ≤ chunk.offset ∧ chunk.offset + piece.input.size ≤ stop := by
  induction stacked with
  | nil => exact ⟨Nat.le_refl _, List.forall_mem_nil _⟩
  | cons aligned behind near rest ih =>
    obtain ⟨ends, later⟩ := ih
    refine ⟨by omega, List.forall_mem_cons.2 ⟨?_, ?_⟩⟩
    · exact ⟨_, List.mem_cons_self, rfl, rfl, aligned, behind, ends⟩
    · intro chunk member
      obtain ⟨piece, listed, owner, position, aligned, after, before⟩ := later chunk member
      exact ⟨piece, List.mem_cons_of_mem _ listed, owner, position, aligned, by omega, before⟩

/-! ## Data segments of one output segment -/

/-- The output segment has the data segments among `seen` that belong to it, and its alignment is the
largest of theirs. -/
structure Grouped (seen : List Piece) (segment : OutputSegment) : Prop where
  stacked : Stacks 0 (seen.filter (·.output = segment.name)) segment.chunks.toList segment.size
  largest : ∀ piece ∈ seen, piece.output = segment.name →
    piece.input.info.alignment.toNat ≤ segment.alignment
  reached : ∃ piece ∈ seen, piece.output = segment.name ∧
    piece.input.info.alignment.toNat = segment.alignment

/-- A data segment that belongs elsewhere changes nothing. -/
theorem Grouped.other (grouped : segment.Grouped seen) (elsewhere : piece.output ≠ segment.name) :
    segment.Grouped (seen ++ [piece]) := by
  refine ⟨?_, ?_, ?_⟩
  · rw [List.filter_append, List.filter_singleton]
    simp only [elsewhere, decide_false, cond_false, List.append_nil]
    exact grouped.stacked
  · intro other listed belongs
    rcases List.mem_append.1 listed with earlier | last
    · exact grouped.largest other earlier belongs
    · obtain rfl := List.mem_singleton.1 last
      exact absurd belongs elsewhere
  · obtain ⟨other, listed, both⟩ := grouped.reached
    exact ⟨other, List.mem_append_left _ listed, both⟩

/-- A data segment is put behind those that are there, if any. -/
theorem grouped_append (belongs : piece.output = segment.name)
    (stacked : Stacks 0 (seen.filter (·.output = segment.name)) segment.chunks.toList segment.size)
    (largest : ∀ piece ∈ seen, piece.output = segment.name →
      piece.input.info.alignment.toNat ≤ segment.alignment)
    (reached : segment.alignment = 0 ∨ ∃ piece ∈ seen, piece.output = segment.name ∧
      piece.input.info.alignment.toNat = segment.alignment) :
    (segment.append piece).Grouped (seen ++ [piece]) := by
  have highest : (segment.append piece).alignment =
    max segment.alignment piece.input.info.alignment.toNat := rfl
  refine ⟨?_, ?_, ?_⟩
  · show Stacks 0 ((seen ++ [piece]).filter (·.output = segment.name))
      (segment.chunks.push ⟨piece.owner, piece.position, alignUp segment.size piece.step⟩).toList
      (alignUp segment.size piece.step + piece.input.size)
    rw [List.filter_append, List.filter_singleton, Array.toList_push]
    simp only [belongs, decide_true, cond_true]
    exact stacked.concat piece
  · intro other listed same
    rw [highest]
    rcases List.mem_append.1 listed with earlier | last
    · have := largest other earlier same
      omega
    · obtain rfl := List.mem_singleton.1 last
      omega
  · rw [highest]
    by_cases higher : segment.alignment ≤ piece.input.info.alignment.toNat
    · exact ⟨piece, List.mem_append_right _ (List.mem_singleton.2 rfl), belongs, by omega⟩
    · rcases reached with zero | ⟨other, listed, same, here⟩
      · omega
      · exact ⟨other, List.mem_append_left _ listed, same, by omega⟩

/-! ## All output segments -/

/-- The data segments `seen` are in output segments of different names. -/
structure Gathered (seen : List Piece) (segments : List OutputSegment) : Prop where
  names : (segments.map (·.name)).Nodup
  groups : ∀ segment ∈ segments, segment.Grouped seen
  all : ∀ piece ∈ seen, ∃ segment ∈ segments, segment.name = piece.output

theorem gather_cases (piece : Piece) (segments : List OutputSegment) :
    (∃ before segment after, segments = before ++ segment :: after ∧ segment.name = piece.output ∧
      gather piece segments = before ++ segment.append piece :: after) ∨
    (∀ segment ∈ segments, segment.name ≠ piece.output) ∧
      gather piece segments = segments ++ [append { name := piece.output } piece] := by
  induction segments with
  | nil => exact .inr ⟨List.forall_mem_nil _, rfl⟩
  | cons first rest ih =>
    unfold gather
    by_cases same : first.name = piece.output
    · left
      rw [if_pos same]
      exact ⟨[], first, rest, rfl, same, rfl⟩
    · rw [if_neg same]
      rcases ih with ⟨before, segment, after, rfl, here, gathered⟩ | ⟨none, gathered⟩
      · left
        rw [gathered]
        exact ⟨first :: before, segment, after, rfl, here, rfl⟩
      · right
        rw [gathered]
        exact ⟨List.forall_mem_cons.2 ⟨same, none⟩, rfl⟩

/-- A data segment goes to an output segment that is there. -/
theorem gathered_append {before after : List OutputSegment}
    (gathered : Gathered seen (before ++ segment :: after)) (same : segment.name = piece.output) :
    Gathered (seen ++ [piece]) (before ++ segment.append piece :: after) := by
  obtain ⟨names, groups, all⟩ := gathered
  rw [List.map_append, List.map_cons] at names
  obtain ⟨-, behind, apart⟩ := List.nodup_append.1 names
  obtain ⟨earlier, own⟩ := List.forall_mem_append.1 groups
  obtain ⟨own, later⟩ := List.forall_mem_cons.1 own
  refine ⟨?_, ?_, ?_⟩
  · rw [List.map_append, List.map_cons]
    exact names
  · -- The others have different names.
    rw [List.forall_mem_append, List.forall_mem_cons]
    refine ⟨?_, ?_, ?_⟩
    · intro other member
      apply (earlier other member).other
      rw [← same]
      exact (apart _ (List.mem_map_of_mem member) _ List.mem_cons_self).symm
    · exact grouped_append same.symm own.stacked own.largest (.inr own.reached)
    · intro other member
      apply (later other member).other
      rw [← same]
      intro equal
      exact (List.nodup_cons.1 behind).1 (equal ▸ List.mem_map_of_mem member)
  · intro other listed
    have place : ∃ first ∈ before ++ segment :: after, first.name = other.output := by
      rcases List.mem_append.1 listed with earlier | last
      · exact all other earlier
      · obtain rfl := List.mem_singleton.1 last
        exact ⟨segment, List.mem_append_right _ List.mem_cons_self, same⟩
    obtain ⟨first, member, name⟩ := place
    rcases List.mem_append.1 member with earlier | later
    · exact ⟨first, List.mem_append_left _ earlier, name⟩
    · rcases List.mem_cons.1 later with rfl | later
      · exact ⟨first.append piece, List.mem_append_right _ List.mem_cons_self, name⟩
      · exact ⟨first, List.mem_append_right _ (List.mem_cons_of_mem _ later), name⟩

/-- A data segment is the first of its output segment. -/
theorem gathered_concat (gathered : Gathered seen segments)
    (none : ∀ segment ∈ segments, segment.name ≠ piece.output) :
    Gathered (seen ++ [piece]) (segments ++ [append { name := piece.output } piece]) := by
  obtain ⟨names, groups, all⟩ := gathered
  have unseen : ∀ other ∈ seen, other.output ≠ piece.output := by
    intro other listed equal
    obtain ⟨segment, member, name⟩ := all other listed
    exact none segment member (name.trans equal)
  refine ⟨?_, ?_, ?_⟩
  · rw [List.map_append, List.nodup_append]
    refine ⟨names, List.nodup_singleton _, ?_⟩
    rintro name listed _ last rfl
    obtain ⟨segment, member, name⟩ := List.mem_map.1 listed
    exact none segment member (name.trans (List.mem_singleton.1 last))
  · rw [List.forall_mem_append, List.forall_mem_singleton]
    constructor
    · intro other member
      exact (groups other member).other (none other member).symm
    · have empty : seen.filter (·.output = piece.output) = [] :=
        List.filter_eq_nil_iff.2 fun other listed => by simpa using unseen other listed
      refine grouped_append rfl ?_ ?_ (.inl rfl)
      · rw [empty]
        exact .nil
      · intro other listed same
        exact absurd same (unseen other listed)
  · rw [List.forall_mem_append, List.forall_mem_singleton]
    constructor
    · intro other listed
      obtain ⟨segment, member, name⟩ := all other listed
      exact ⟨segment, List.mem_append_left _ member, name⟩
    · exact ⟨_, List.mem_append_right _ (List.mem_singleton.2 rfl), rfl⟩

theorem gathered_gather (gathered : Gathered seen segments) (piece : Piece) :
    Gathered (seen ++ [piece]) (gather piece segments) := by
  rcases gather_cases piece segments with ⟨before, segment, after, rfl, same, result⟩ | ⟨none, result⟩
  · rw [result]
    exact gathered_append gathered same
  · rw [result]
    exact gathered_concat gathered none

theorem gathered_foldl (gathered : Gathered seen segments) (items : List Piece) :
    Gathered (seen ++ items)
      (items.foldl (fun segments piece => gather piece segments) segments) := by
  induction items generalizing seen segments with
  | nil =>
    rw [List.append_nil]
    exact gathered
  | cons piece rest ih =>
    rw [List.append_cons]
    exact ih (gathered_gather gathered piece)

/-- All data segments are gathered by the names of their output segments. -/
theorem gathered_gathered (modules : List ObjectModule) :
    Gathered (pieces modules) (DataLayout.gathered modules) := by
  have none : Gathered [] [] := ⟨List.nodup_nil, List.forall_mem_nil _, List.forall_mem_nil _⟩
  exact gathered_foldl none (pieces modules)

/-! ## Output segments one behind the other -/

/-- The output segments lie one behind the other, from `base` up to `stop`. Each starts at the first
multiple of its alignment. -/
def Snug : (base : Nat) → (segments : List OutputSegment) → (stop : Nat) → Prop
  | base, [], stop => stop = base
  | base, segment :: rest, stop =>
    powerOfTwo segment.alignment ∣ segment.address ∧ base ≤ segment.address ∧
      segment.address < base + powerOfTwo segment.alignment ∧ Snug segment.stop rest stop

theorem snug_arrange (base : Nat) (segments : List OutputSegment) :
    Snug base (arrange base segments).1 (arrange base segments).2 := by
  induction segments generalizing base with
  | nil => rfl
  | cons segment rest ih =>
    have positive := powerOfTwo_pos segment.alignment
    exact ⟨dvd_alignUp _ _, le_alignUp _ positive, alignUp_lt _ positive, ih _⟩

theorem Snug.aligned (snug : Snug base segments stop) (member : segment ∈ segments) :
    powerOfTwo segment.alignment ∣ segment.address := by
  induction segments generalizing base with
  | nil => cases member
  | cons first rest ih =>
    rcases List.mem_cons.1 member with rfl | later
    · exact snug.1
    · exact ih snug.2.2.2 later

/-- The end is that of the last output segment. -/
theorem Snug.stop_eq (snug : Snug base segments stop) :
    stop = (segments.getLast?.map OutputSegment.stop).getD base := by
  induction segments generalizing base with
  | nil => exact snug
  | cons segment rest ih =>
    rw [ih snug.2.2.2]
    rcases last : rest.getLast? with _ | final
    · rw [List.getLast?_cons, last]
      rfl
    · rw [List.getLast?_cons, last]
      rfl

/-- Only addresses are given. -/
theorem arrange_forall₂ (base : Nat) (segments : List OutputSegment) :
    List.Forall₂ (fun old new => ∃ address, new = { old with address }) segments
      (arrange base segments).1 := by
  induction segments generalizing base with
  | nil => exact .nil
  | cons segment rest ih => exact .cons ⟨_, rfl⟩ (ih _)

theorem map_name_arrange (base : Nat) (segments : List OutputSegment) :
    (arrange base segments).1.map (·.name) = segments.map (·.name) := by
  induction segments generalizing base with
  | nil => rfl
  | cons segment rest ih => exact congrArg (segment.name :: ·) (ih _)

end OutputSegment

end StaticLink
