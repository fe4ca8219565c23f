import StaticLink.Proofs.Layout.Groups
import StaticLink.Proofs.TextOrder

/-!
# Addresses

* `DataLayout.Exact`: all that is known of a layout: where each data segment is, which of them share
  an output segment, in which order they lie, and how few bytes are between them.
* `DataLayout.ofModules_exact`: there is a layout exactly if the one in numbers of any size ends at an
  address, and then it is that one, and exact.
-/

namespace StaticLink

namespace DataLayout

open OutputSegment

variable {modules : List ObjectModule} {base : Nat} {layout : DataLayout} {owner : ModuleId}
  {position : Nat} {input : DataSegment} {output : OutputSegment} {chunk : Chunk}

/-- The layout of the data segments of some modules from `base` on. -/
structure Exact (modules : List ObjectModule) (base : Nat) (layout : DataLayout) : Prop where
  /-- Every data segment is one chunk of one output segment, and nothing else is. -/
  keys : (OutputSegment.keys layout.segments).Perm (positions (·.dataSegments.size) modules)
  /-- It has an address, which is that of its chunk. -/
  address : ∀ owner position input, dataSegment? modules owner position = some input →
    ∃ output ∈ layout.segments, ∃ chunk ∈ output.chunks,
      chunk.owner = owner ∧ chunk.segment = position ∧
      output.name = DataSegment.outputName input.info.name ∧
      layout.address? owner position = some (output.address + chunk.offset) ∧
      powerOfTwo input.info.alignment.toNat ∣ output.address + chunk.offset ∧
      base ≤ output.address + chunk.offset
  absent : ∀ owner position, dataSegment? modules owner position = none →
    layout.address? owner position = none
  /-- Two of them share an output segment exactly if their names lead to the same. -/
  shared : ∀ owner position input owner' position' input',
    dataSegment? modules owner position = some input →
    dataSegment? modules owner' position' = some input' →
    ((∃ output ∈ layout.segments, (owner, position) ∈ output.keysOf ∧
        (owner', position') ∈ output.keysOf) ↔
      DataSegment.outputName input.info.name = DataSegment.outputName input'.info.name)
  /-- The chunks of an output segment are the data segments that lead to it, one behind the other,
  each at the first multiple of its step. -/
  stacked : ∀ output ∈ layout.segments, Stacks 0
    ((pieces modules).filter (·.output = output.name)) output.chunks.toList output.size
  /-- They are in the order of the inputs, and do not overlap. -/
  ordered : ∀ output ∈ layout.segments, output.chunks.toList.Pairwise fun first second =>
    (first.owner < second.owner ∨ first.owner = second.owner ∧ first.segment < second.segment) ∧
      ∀ input, dataSegment? modules first.owner first.segment = some input →
        first.offset + input.size ≤ second.offset
  /-- The alignment of an output segment is the largest of theirs. -/
  largest : ∀ output ∈ layout.segments,
    (∀ chunk ∈ output.chunks, ∀ input,
      dataSegment? modules chunk.owner chunk.segment = some input →
        input.info.alignment.toNat ≤ output.alignment) ∧
    ∃ chunk ∈ output.chunks, ∃ input,
      dataSegment? modules chunk.owner chunk.segment = some input ∧
        input.info.alignment.toNat = output.alignment
  /-- Output segments are in strictly descending order of the bytes of their names. -/
  names : layout.segments.Pairwise fun first second =>
    Text.utf8 second.name < Text.utf8 first.name
  /-- They lie one behind the other, each at the first multiple of its alignment. -/
  snug : Snug base layout.segments layout.stop
  last : layout.stop = (layout.segments.getLast?.map OutputSegment.stop).getD base

/-! ## Descending names -/

theorem pairwise_descending {segments : List OutputSegment}
    (nodup : (segments.map (·.name)).Nodup) :
    (descending segments).Pairwise fun first second =>
      Text.utf8 second.name < Text.utf8 first.name := by
  have sorted : (descending segments).Pairwise fun first second =>
      decide (second.name ≤ first.name) = true := by
    apply List.pairwise_mergeSort
    · intro first second third one two
      rw [decide_eq_true_iff] at one two ⊢
      exact String.le_trans two one
    · intro first second
      rw [Bool.or_eq_true, decide_eq_true_iff, decide_eq_true_iff]
      exact String.le_total _ _
  have perm : (descending segments).Perm segments := List.mergeSort_perm _ _
  have nodup' : ((descending segments).map (·.name)).Nodup := (perm.map _).nodup_iff.2 nodup
  have different : (descending segments).Pairwise fun first second => first.name ≠ second.name :=
    List.pairwise_map.1 nodup'
  refine (sorted.and different).imp ?_
  intro first second both
  rw [Text.utf8_lt_iff, ← String.not_le]
  intro above
  exact both.2 (String.le_antisymm above (of_decide_eq_true both.1))

/-! ## The unbounded layout -/

/-- The output segments with addresses have the names and chunks of those without. -/
theorem grouped_unbounded (modules : List ObjectModule) (base : Nat) :
    (∀ output ∈ (unbounded modules base).segments, output.Grouped (pieces modules)) ∧
    (unbounded modules base).segments.Pairwise fun first second =>
      Text.utf8 second.name < Text.utf8 first.name := by
  have gathered := gathered_gathered modules
  have perm : (descending (DataLayout.gathered modules)).Perm (DataLayout.gathered modules) :=
    List.mergeSort_perm _ _
  have same := arrange_forall₂ base (descending (DataLayout.gathered modules))
  constructor
  · intro output member
    obtain ⟨place, here⟩ := List.mem_iff_getElem?.1 member
    obtain ⟨old, there, address, rfl⟩ := exists_of_forall₂ same.flip here
    have grouped := gathered.groups old (perm.mem_iff.1 (List.mem_of_getElem? there))
    exact ⟨grouped.stacked, grouped.largest, grouped.reached⟩
  · have names : (unbounded modules base).segments.map (·.name) =
        (descending (DataLayout.gathered modules)).map (·.name) := map_name_arrange base _
    have sorted := pairwise_descending gathered.names
    have mapped : ((descending (DataLayout.gathered modules)).map (·.name)).Pairwise
      fun first second => Text.utf8 second < Text.utf8 first := List.pairwise_map.2 sorted
    rw [← names] at mapped
    exact List.pairwise_map.1 mapped

/-- The chunks of an output segment are in the order of the inputs, and do not overlap. -/
theorem pairwise_of_stacks {items : List Piece} {chunks : List Chunk} {written stop : Nat}
    (stacked : Stacks written items chunks stop) (among : ∀ piece ∈ items, piece ∈ pieces modules)
    (sorted : items.Pairwise Piece.Before) :
    chunks.Pairwise fun first second =>
      (first.owner < second.owner ∨ first.owner = second.owner ∧ first.segment < second.segment) ∧
        ∀ input, dataSegment? modules first.owner first.segment = some input →
          first.offset + input.size ≤ second.offset := by
  induction stacked with
  | nil => exact .nil
  | @cons written stop offset piece items chunks aligned behind near rest ih =>
    obtain ⟨one, others⟩ := List.forall_mem_cons.1 among
    obtain ⟨first, later⟩ := List.pairwise_cons.1 sorted
    refine List.pairwise_cons.2 ⟨?_, ih others later⟩
    intro chunk member
    obtain ⟨other, listed, owner, segment, -, after, -⟩ := rest.inside.2 chunk member
    have before : Piece.Before piece other := first other listed
    rw [owner, segment]
    refine ⟨before, ?_⟩
    intro input here
    obtain rfl := Option.some.inj ((mem_pieces.1 one).symm.trans here)
    exact after

/-- A chunk is a data segment that leads to its output segment. -/
theorem chunk_of_grouped (grouped : output.Grouped (pieces modules)) (among : chunk ∈ output.chunks)
    (here : dataSegment? modules chunk.owner chunk.segment = some input) :
    output.name = DataSegment.outputName input.info.name ∧
      powerOfTwo input.info.alignment.toNat ∣ chunk.offset ∧
      input.info.alignment.toNat ≤ output.alignment := by
  obtain ⟨piece, listed, owner, segment, aligned, -⟩ :=
    grouped.stacked.inside.2 chunk (Array.mem_toList_iff.2 among)
  obtain ⟨within, belongs⟩ := List.mem_filter.1 listed
  have belongs : piece.output = output.name := of_decide_eq_true belongs
  rw [owner, segment, mem_pieces.1 within] at here
  obtain rfl := Option.some.inj here
  exact ⟨belongs.symm, aligned, grouped.largest piece within belongs⟩

/-- The data segment of the largest alignment is one of the chunks. -/
theorem exists_chunk_of_grouped (grouped : output.Grouped (pieces modules)) :
    ∃ chunk ∈ output.chunks, ∃ input,
      dataSegment? modules chunk.owner chunk.segment = some input ∧
        input.info.alignment.toNat = output.alignment := by
  obtain ⟨piece, within, belongs, highest⟩ := grouped.reached
  have key : piece.key ∈ output.keysOf := by
    rw [keysOf, grouped.stacked.keys]
    exact List.mem_map_of_mem (List.mem_filter.2 ⟨within, decide_eq_true belongs⟩)
  obtain ⟨chunk, among, owner, segment⟩ := mem_keysOf.1 key
  refine ⟨chunk, among, piece.input, ?_, highest⟩
  rw [owner, segment]
  exact mem_pieces.1 within

/-- A data segment is in the output segment to which its name leads. -/
theorem mem_keysOf_iff (grouped : output.Grouped (pieces modules))
    (here : dataSegment? modules owner position = some input) :
    (owner, position) ∈ output.keysOf ↔ output.name = DataSegment.outputName input.info.name := by
  constructor
  · intro key
    obtain ⟨chunk, among, rfl, rfl⟩ := mem_keysOf.1 key
    exact (chunk_of_grouped grouped among here).1
  · intro name
    let piece : Piece := ⟨owner, position, input⟩
    have listed : piece ∈ (pieces modules).filter (·.output = output.name) :=
      List.mem_filter.2 ⟨mem_pieces.2 here, decide_eq_true name.symm⟩
    rw [keysOf, grouped.stacked.keys]
    exact List.mem_map_of_mem listed

/-- What is no data segment has no address. -/
theorem address?_eq_none (placed : Placed modules base layout)
    (none : dataSegment? modules owner position = none) :
    layout.address? owner position = Option.none := by
  show layout.segments.findSome? _ = _
  rw [List.findSome?_eq_none_iff]
  intro output member
  rw [Option.map_eq_none_iff, Array.find?_eq_none]
  intro chunk among found
  have key : chunk.owner = owner ∧ chunk.segment = position := by simpa using found
  have listed : (owner, position) ∈ OutputSegment.keys layout.segments :=
    List.mem_flatMap.2 ⟨output, member, mem_keysOf.2 ⟨chunk, among, key⟩⟩
  obtain ⟨module, here, within⟩ :=
    (mem_positions (·.dataSegments.size)).1 (placed.keys.mem_iff.1 listed)
  rw [dataSegment?, here] at none
  exact absurd within (Nat.not_lt.2 (Array.getElem?_eq_none_iff.1 none))

/-- A layout that succeeds is the unlimited one, and exact. -/
theorem exact_of_ofModules (same : layout = unbounded modules base)
    (h : ofModules modules base = .ok layout) : layout.Exact modules base := by
  have placed := placed_of_ofModules h
  obtain ⟨grouped, names⟩ := grouped_unbounded modules base
  rw [← same] at grouped names
  have snug : Snug base layout.segments layout.stop := by
    rw [same]
    exact snug_arrange base _
  refine
    { keys := placed.keys
      address := ?_
      absent := fun _ _ none => address?_eq_none placed none
      shared := ?_
      stacked := fun output member => (grouped output member).stacked
      ordered := ?_
      largest := ?_
      names
      snug
      last := snug.stop_eq }
  · intro owner position input here
    obtain ⟨output, member, chunk, among, rfl, rfl⟩ := placed.exists_chunk here
    obtain ⟨leads, aligned, le⟩ := chunk_of_grouped (grouped output member) among here
    have start : base ≤ output.address := (placed.packed.inside member).1
    -- The output segment is aligned for all of its chunks.
    have whole : powerOfTwo input.info.alignment.toNat ∣ output.address :=
      Nat.dvd_trans (powerOfTwo_dvd le) (snug.aligned member)
    exact ⟨output, member, chunk, among, rfl, rfl, leads, placed.address?_eq member among,
      Nat.dvd_add whole aligned, by omega⟩
  · intro owner position input owner' position' input' here here'
    constructor
    · intro ⟨output, member, key, key'⟩
      have name := (mem_keysOf_iff (grouped output member) here).1 key
      have name' := (mem_keysOf_iff (grouped output member) here').1 key'
      exact name.symm.trans name'
    · intro equal
      -- The output segment of the first is the one to which the second leads.
      obtain ⟨output, member, chunk, among, rfl, rfl⟩ := placed.exists_chunk here
      have name := (chunk_of_grouped (grouped output member) among here).1
      have key := (mem_keysOf_iff (grouped output member) here).2 name
      have key' := (mem_keysOf_iff (grouped output member) here').2 (name.trans equal)
      exact ⟨output, member, key, key'⟩
  · intro output member
    exact pairwise_of_stacks (grouped output member).stacked
      (fun piece listed => (List.mem_filter.1 listed).1) ((pieces_pairwise modules).filter _)
  · intro output member
    refine ⟨?_, exists_chunk_of_grouped (grouped output member)⟩
    intro chunk among input here
    exact (chunk_of_grouped (grouped output member) among here).2.2

/-- There is a layout exactly if the one in numbers of any size ends at an address. Then it is that
one, and exact. -/
theorem ofModules_exact
    (aligned : ∀ module ∈ modules, ∀ input ∈ module.dataSegments, input.info.alignment.toNat < 32)
    (inside : ∀ module ∈ modules, module.strayRelocation? = none) (base : UInt32) :
    ofModules modules base.toNat =
        (if (unbounded modules base.toNat).stop ≤ 4294967295 then
          .ok (unbounded modules base.toNat)
        else .error (.unsupported .addressSpaceExhausted)) ∧
      ∀ layout, ofModules modules base.toNat = .ok layout →
        layout = unbounded modules base.toNat ∧ layout.Exact modules base.toNat := by
  have whole := ofModules_eq aligned inside base.toNat_lt
  constructor
  · rw [whole]
    by_cases ends : (unbounded modules base.toNat).stop < wordLimit
    · rw [if_pos ends, if_pos (Nat.le_of_lt_succ ends)]
    · rw [if_neg ends, if_neg fun within => ends (Nat.lt_succ_of_le within)]
      rfl
  · intro layout h
    have same : layout = unbounded modules base.toNat := by
      rw [h] at whole
      split at whole
      · exact Except.ok.inj whole
      · cases whole
    exact ⟨same, exact_of_ofModules same h⟩

/-- Two modules with data segments of three output segments. -/
def gatheredModules : List ObjectModule :=
  [{ name := "user.o", bytes := []
     dataSegments := #[⟨0, 0, ⟨0, 4⟩, { name := "another_sec", alignment := 2 }⟩,
       ⟨0, 0, ⟨4, 16⟩, { name := ".rodata.hello" }⟩] },
   { name := "foo.o", bytes := []
     dataSegments := #[⟨0, 0, ⟨0, 9⟩, { name := ".rodata.bye" }⟩,
       ⟨0, 0, ⟨9, 13⟩, { name := ".data.foo", alignment := 2 }⟩,
       ⟨0, 0, ⟨13, 17⟩, { name := ".data.bar", alignment := 4 }⟩] }]

/-- They have a layout, in which `.data` begins at the next multiple of 16. -/
theorem ofModules_gatheredModules :
    ∃ layout, ofModules gatheredModules (1024 : UInt32).toNat = .ok layout ∧
      layout.Exact gatheredModules (1024 : UInt32).toNat ∧
      layout.segments.map (fun output => (output.name, output.address, output.size)) =
        [("another_sec", 1024, 4), (".rodata", 1028, 21), (".data", 1056, 20)] ∧
      layout.stop = 1076 := by
  have merged : merge gatheredModules = .ok
      [{ name := "another_sec", alignment := 2, size := 4, chunks := #[⟨0, 0, 0⟩] },
       { name := ".rodata", size := 21, chunks := #[⟨0, 1, 0⟩, ⟨1, 0, 12⟩] },
       { name := ".data", alignment := 4, size := 20, chunks := #[⟨1, 1, 0⟩, ⟨1, 2, 16⟩] }] := by
    decide +kernel
  have aligned : ∀ module ∈ gatheredModules, ∀ input ∈ module.dataSegments,
      input.info.alignment.toNat < 32 := by decide
  have inside : ∀ module ∈ gatheredModules, module.strayRelocation? = none := by decide
  have exact := ofModules_exact aligned inside 1024
  have packed : ofModules gatheredModules (1024 : UInt32).toNat = .ok
      ⟨[{ name := "another_sec", alignment := 2, address := 1024, size := 4
          chunks := #[⟨0, 0, 0⟩] },
        { name := ".rodata", address := 1028, size := 21, chunks := #[⟨0, 1, 0⟩, ⟨1, 0, 12⟩] },
        { name := ".data", alignment := 4, address := 1056, size := 20
          chunks := #[⟨1, 1, 0⟩, ⟨1, 2, 16⟩] }], 1076⟩ := by
    unfold ofModules
    rw [merged]
    -- The names are in descending order, so that sorting leaves the list as it is.
    show (pack 1024 (List.mergeSort _ _) >>= _) = _
    rw [List.mergeSort_of_pairwise (by decide +kernel)]
    decide +kernel
  exact ⟨_, packed, (exact.2 _ packed).2, rfl, rfl⟩

end DataLayout

end StaticLink
