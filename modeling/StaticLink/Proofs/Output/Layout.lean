import StaticLink.DataLayout
import StaticLink.Proofs.Numbering
import StaticLink.Proofs.Steps

/-!
# The layout of data segments

Every data segment of an input has one place in one output segment. In an output segment they lie
one behind the other, and the output segments follow each other too.

* `OutputSegment.keys`: the data segments that are in some output segments.
* `OutputSegment.Stacked`: the data segments in an output segment do not overlap.
* `DataLayout.Placed`: what is known of a layout; `DataLayout.placed_of_ofModules`.
* `DataLayout.Placed.address?_eq`: the address of a data segment is that of its place.
-/

namespace StaticLink

/-- The data segment at this position of a module. -/
def dataSegment? (modules : List ObjectModule) (owner : ModuleId) (position : Nat) :
    Option DataSegment :=
  (modules[owner]?).bind fun module => module.dataSegments[position]?

theorem dataSegment?_eq_some {modules : List ObjectModule} {owner : ModuleId} {position : Nat}
    {input : DataSegment} :
    dataSegment? modules owner position = some input ↔
      ∃ module, modules[owner]? = some module ∧ module.dataSegments[position]? = some input :=
  Option.bind_eq_some_iff

/-- A sum that is an address is the address. -/
theorem address?_eq_some {address found : Nat} :
    address? address = some found ↔ address < wordLimit ∧ found = address := by
  unfold address?
  split
  · next small =>
    rw [Option.some.injEq, eq_comm]
    exact (and_iff_right small).symm
  · next large => simp [large]

theorem le_of_alignUp? {offset step found : Nat} (positive : 0 < step)
    (h : alignUp? offset step = some found) : offset ≤ found := by
  obtain ⟨_, -, rfl⟩ := Option.map_eq_some_iff.1 h
  exact le_alignUp offset positive

namespace OutputSegment

variable {modules : List ObjectModule} {owner : ModuleId} {position size written : Nat}
  {segments next : List OutputSegment} {segment pushed : OutputSegment} {input : DataSegment}
  {chunks : List Chunk} {chunk : Chunk}

/-! ## Which data segments there are -/

/-- The data segments that are in an output segment, each by its module and position. -/
def keysOf (segment : OutputSegment) : List (ModuleId × Nat) :=
  segment.chunks.toList.map fun chunk => (chunk.owner, chunk.segment)

/-- The data segments that are in some output segments. -/
def keys (segments : List OutputSegment) : List (ModuleId × Nat) := segments.flatMap keysOf

theorem keys_cons (segment : OutputSegment) (segments : List OutputSegment) :
    keys (segment :: segments) = segment.keysOf ++ keys segments := List.flatMap_cons

theorem mem_keysOf : (owner, position) ∈ segment.keysOf ↔
    ∃ chunk ∈ segment.chunks, chunk.owner = owner ∧ chunk.segment = position := by
  simp [keysOf]

/-- A data segment is put behind those that are there. -/
theorem push_eq_ok (h : segment.push owner position input = .ok pushed) :
    ∃ offset, segment.size ≤ offset ∧ pushed.size = offset + input.size ∧
      pushed.chunks = segment.chunks.push ⟨owner, position, offset⟩ := by
  unfold push at h
  obtain ⟨offset, aligned, h⟩ := bind_eq_ok.1 h
  obtain ⟨size, fits, rfl⟩ := return_eq_ok.1 h
  obtain ⟨-, rfl⟩ := address?_eq_some.1 (fitting_eq_ok.1 fits)
  exact ⟨offset, le_of_alignUp? (powerOfTwo_pos _) (fitting_eq_ok.1 aligned), rfl, rfl⟩

theorem keysOf_push (h : segment.push owner position input = .ok pushed) :
    pushed.keysOf = segment.keysOf ++ [(owner, position)] := by
  obtain ⟨offset, -, -, chunks⟩ := push_eq_ok h
  rw [keysOf, chunks, Array.toList_push, List.map_append]
  rfl

/-- Putting a data segment into the output segments adds this one. -/
theorem keys_insert (h : insert owner position input segments = .ok next) :
    (keys next).Perm ((owner, position) :: keys segments) := by
  -- It goes into the first output segment of its name, or into a new one at the end.
  induction segments generalizing next with
  | nil =>
    obtain ⟨pushed, put, rfl⟩ := return_eq_ok.1 h
    rw [keys_cons, keysOf_push put]
    exact .refl _
  | cons segment rest ih =>
    unfold insert at h
    split at h
    · obtain ⟨pushed, put, rfl⟩ := return_eq_ok.1 h
      rw [keys_cons, keys_cons, keysOf_push put, List.append_assoc]
      exact List.perm_middle
    · obtain ⟨inserted, put, rfl⟩ := return_eq_ok.1 h
      rw [keys_cons, keys_cons]
      exact ((ih put).append_left _).trans List.perm_middle

/-! ## Data segments one behind the other -/

/-- The chunks lie one behind the other, from `written` on, in an output segment of this size. -/
def Stacked (modules : List ObjectModule) (size : Nat) :
    (written : Nat) → (chunks : List Chunk) → Prop
  | written, [] => written ≤ size
  | written, chunk :: rest =>
    ∃ input, dataSegment? modules chunk.owner chunk.segment = some input ∧
      written ≤ chunk.offset ∧ Stacked modules size (chunk.offset + input.size) rest

theorem Stacked.le (stacked : Stacked modules size written chunks) : written ≤ size := by
  induction chunks generalizing written with
  | nil => exact stacked
  | cons chunk rest ih =>
    obtain ⟨input, -, behind, rest⟩ := stacked
    have := ih rest
    omega

/-- Each chunk is a data segment that is inside. -/
theorem Stacked.inside (stacked : Stacked modules size written chunks) (member : chunk ∈ chunks) :
    ∃ input, dataSegment? modules chunk.owner chunk.segment = some input ∧
      written ≤ chunk.offset ∧ chunk.offset + input.size ≤ size := by
  induction chunks generalizing written with
  | nil => cases member
  | cons first rest ih =>
    obtain ⟨input, here, behind, rest⟩ := stacked
    rcases List.mem_cons.1 member with rfl | member
    · exact ⟨input, here, behind, rest.le⟩
    · obtain ⟨other, there, behind', inside⟩ := ih rest member
      exact ⟨other, there, by omega, inside⟩

/-- Another chunk at the end, from where the others ended. -/
theorem Stacked.concat {offset : Nat} (stacked : Stacked modules size written chunks)
    (here : dataSegment? modules owner position = some input) (behind : size ≤ offset) :
    Stacked modules (offset + input.size) written (chunks ++ [⟨owner, position, offset⟩]) := by
  induction chunks generalizing written with
  | nil => exact ⟨input, here, Nat.le_trans stacked behind, Nat.le_refl _⟩
  | cons chunk rest ih =>
    obtain ⟨other, there, before, rest⟩ := stacked
    exact ⟨other, there, before, ih rest⟩

/-- The output segment has a chunk, and its chunks lie one behind the other. -/
structure Laid (modules : List ObjectModule) (segment : OutputSegment) : Prop where
  some : segment.chunks.toList ≠ []
  stacked : Stacked modules segment.size 0 segment.chunks.toList

theorem laid_push (stacked : Stacked modules segment.size 0 segment.chunks.toList)
    (here : dataSegment? modules owner position = some input)
    (h : segment.push owner position input = .ok pushed) : pushed.Laid modules := by
  obtain ⟨offset, behind, size, chunks⟩ := push_eq_ok h
  refine ⟨?_, ?_⟩
  · rw [chunks, Array.toList_push]
    simp
  · rw [size, chunks, Array.toList_push]
    exact stacked.concat here behind

theorem laid_insert (laid : ∀ segment ∈ segments, segment.Laid modules)
    (here : dataSegment? modules owner position = some input)
    (h : insert owner position input segments = .ok next) :
    ∀ segment ∈ next, segment.Laid modules := by
  induction segments generalizing next with
  | nil =>
    obtain ⟨pushed, put, rfl⟩ := return_eq_ok.1 h
    intro segment member
    obtain rfl := List.mem_singleton.1 member
    refine laid_push ?_ here put
    exact Nat.le_refl 0
  | cons first rest ih =>
    obtain ⟨one, others⟩ := List.forall_mem_cons.1 laid
    unfold insert at h
    split at h
    · obtain ⟨pushed, put, rfl⟩ := return_eq_ok.1 h
      exact List.forall_mem_cons.2 ⟨laid_push one.stacked here put, others⟩
    · obtain ⟨inserted, put, rfl⟩ := return_eq_ok.1 h
      exact List.forall_mem_cons.2 ⟨one, ih others put⟩

/-! ## Addresses -/

/-- The output segments lie one behind the other between two addresses. -/
def Packed : (base : Nat) → (segments : List OutputSegment) → (stop : Nat) → Prop
  | base, [], stop => base = stop
  | base, segment :: rest, stop =>
    base ≤ segment.address ∧ segment.stop < wordLimit ∧ Packed segment.stop rest stop

theorem Packed.le {base stop : Nat} (packed : Packed base segments stop) : base ≤ stop := by
  induction segments generalizing base with
  | nil => exact Nat.le_of_eq packed
  | cons segment rest ih =>
    obtain ⟨behind, -, rest⟩ := packed
    have := ih rest
    unfold OutputSegment.stop at this
    omega

theorem Packed.inside {base stop : Nat} (packed : Packed base segments stop)
    (member : segment ∈ segments) :
    base ≤ segment.address ∧ segment.stop ≤ stop ∧ segment.stop < wordLimit := by
  induction segments generalizing base with
  | nil => cases member
  | cons first rest ih =>
    obtain ⟨behind, small, rest⟩ := packed
    rcases List.mem_cons.1 member with rfl | member
    · exact ⟨behind, rest.le, small⟩
    · obtain ⟨behind', inside⟩ := ih rest member
      unfold OutputSegment.stop at behind'
      exact ⟨by omega, inside⟩

/-- Output segments do not overlap. -/
theorem Packed.apart {base stop : Nat} (packed : Packed base segments stop) :
    segments.Pairwise fun first second => first.stop ≤ second.address := by
  induction segments generalizing base with
  | nil => exact .nil
  | cons first rest ih =>
    obtain ⟨-, -, rest⟩ := packed
    exact List.pairwise_cons.2 ⟨fun _ member => (rest.inside member).1, ih rest⟩

/-- The output segments get addresses and nothing else. -/
theorem packed_of_pack {base stop : Nat} (h : pack base segments = .ok (next, stop)) :
    Packed base next stop ∧
      List.Forall₂ (fun old new => new.size = old.size ∧ new.chunks = old.chunks) segments next := by
  induction segments generalizing base next stop with
  | nil =>
    cases h
    exact ⟨rfl, .nil⟩
  | cons segment rest ih =>
    obtain ⟨address, aligned, h⟩ := bind_eq_ok.1 h
    obtain ⟨after, fits, h⟩ := bind_eq_ok.1 h
    obtain ⟨⟨packed, last⟩, others, done⟩ := bind_eq_ok.1 h
    cases done
    obtain ⟨small, rfl⟩ := address?_eq_some.1 (fitting_eq_ok.1 fits)
    obtain ⟨behind, same⟩ := ih others
    have aligned := le_of_alignUp? (powerOfTwo_pos _) (fitting_eq_ok.1 aligned)
    exact ⟨⟨aligned, small, behind⟩, .cons ⟨rfl, rfl⟩ same⟩

theorem keys_of_forall₂ (same : List.Forall₂ (fun old new : OutputSegment =>
    new.size = old.size ∧ new.chunks = old.chunks) segments next) : keys next = keys segments := by
  induction same with
  | nil => rfl
  | cons first _ ih => rw [keys_cons, keys_cons, ih, keysOf, first.2, keysOf]

theorem laid_of_forall₂ (same : List.Forall₂ (fun old new : OutputSegment =>
    new.size = old.size ∧ new.chunks = old.chunks) segments next)
    (laid : ∀ segment ∈ segments, segment.Laid modules) :
    ∀ segment ∈ next, segment.Laid modules := by
  induction same with
  | nil => exact laid
  | @cons old new _ _ first _ ih =>
    obtain ⟨one, others⟩ := List.forall_mem_cons.1 laid
    refine List.forall_mem_cons.2 ⟨⟨?_, ?_⟩, ih others⟩
    · rw [first.2]
      exact one.some
    · rw [first.1, first.2]
      exact one.stacked

end OutputSegment

namespace DataLayout

open OutputSegment

variable {modules : List ObjectModule} {segments next : List OutputSegment} {owner : ModuleId}
  {position base : Nat} {module : ObjectModule} {layout : DataLayout}

theorem keys_insertModule (h : insertModule segments module owner = .ok next) :
    (keys next).Perm
      ((List.range module.dataSegments.size).map (owner, ·) ++ keys segments) := by
  obtain ⟨_, -, h⟩ := bind_eq_ok.1 h
  have perm := foldlM_perm keys (fun item : DataSegment × Nat => [(owner, item.2)]) h
    fun before item after step => keys_insert step
  have items : (module.dataSegments.toList.zipIdx.flatMap fun item => [(owner, item.2)]) =
      (List.range module.dataSegments.size).map (owner, ·) := by
    rw [← List.map_eq_flatMap]
    refine (List.map_map (f := Prod.snd) (g := fun place : Nat => (owner, place))).symm.trans ?_
    rw [List.zipIdx_map_snd, Array.length_toList, List.range_eq_range']
  rw [items] at perm
  exact perm

theorem keys_merge (h : merge modules = .ok segments) :
    (keys segments).Perm (positions (·.dataSegments.size) modules) := by
  have perm := foldlM_perm keys (fun item : ObjectModule × Nat =>
    (List.range item.1.dataSegments.size).map (item.2, ·)) h
    fun before item after step => keys_insertModule step
  rw [show keys [] = [] from rfl, List.append_nil] at perm
  exact perm

theorem laid_merge (h : merge modules = .ok segments) :
    ∀ segment ∈ segments, segment.Laid modules := by
  refine foldlM_keeps_mem (fun segments => ∀ segment ∈ segments, Laid modules segment) h ?_ (by simp)
  rintro before ⟨module, owner⟩ after member step laid
  have input : modules[owner]? = some module := List.mk_mem_zipIdx_iff_getElem?.1 member
  obtain ⟨_, -, step⟩ := bind_eq_ok.1 step
  refine foldlM_keeps_mem (fun segments => ∀ segment ∈ segments, Laid modules segment) step ?_ laid
  rintro earlier ⟨found, position⟩ later member step laid
  have here : module.dataSegments.toList[position]? = some found :=
    List.mk_mem_zipIdx_iff_getElem?.1 member
  rw [Array.getElem?_toList] at here
  exact laid_insert laid (dataSegment?_eq_some.2 ⟨module, input, here⟩) step

/-- What is known of the layout of some modules, with addresses from `base` on. -/
structure Placed (modules : List ObjectModule) (base : Nat) (layout : DataLayout) : Prop where
  /-- Every data segment is in one place. -/
  keys : (keys layout.segments).Perm (positions (·.dataSegments.size) modules)
  laid : ∀ segment ∈ layout.segments, segment.Laid modules
  packed : Packed base layout.segments layout.stop

theorem placed_of_ofModules (h : ofModules modules base = .ok layout) :
    layout.Placed modules base := by
  obtain ⟨merged, folded, h⟩ := bind_eq_ok.1 h
  obtain ⟨⟨segments, stop⟩, packed, rfl⟩ := return_eq_ok.1 h
  obtain ⟨packed, same⟩ := packed_of_pack packed
  -- Sorting the output segments loses none of them.
  have sorted := List.mergeSort_perm merged fun first second => decide (second.name ≤ first.name)
  refine ⟨?_, ?_, packed⟩
  · rw [keys_of_forall₂ same]
    exact (sorted.flatMap_right keysOf).trans (keys_merge folded)
  · refine laid_of_forall₂ same ?_
    intro segment member
    exact laid_merge folded segment (sorted.mem_iff.1 member)

/-- Where data segments are in one place, a search finds this place. -/
theorem findSome?_chunk {output : OutputSegment} {chunk : Chunk} (nodup : (keys segments).Nodup)
    (member : output ∈ segments) (among : chunk ∈ output.chunks) :
    (segments.findSome? fun output => (output.chunks.find? fun other =>
        other.owner == chunk.owner && other.segment == chunk.segment).map fun other =>
      output.address + other.offset) = some (output.address + chunk.offset) := by
  induction segments with
  | nil => cases member
  | cons first rest ih =>
    rw [keys_cons] at nodup
    obtain ⟨own, others, apart⟩ := List.nodup_append.1 nodup
    rw [List.findSome?_cons]
    rcases search : first.chunks.find? fun other =>
      other.owner == chunk.owner && other.segment == chunk.segment with _ | found
    · rw [search]
      have absent := Array.find?_eq_none.1 search
      rcases List.mem_cons.1 member with rfl | later
      · exact absurd (by simp) (absent chunk among)
      · exact ih others later
    · have same : found.owner = chunk.owner ∧ found.segment = chunk.segment := by
        simpa using Array.find?_some search
      have listed := Array.mem_of_find?_eq_some search
      have key : (chunk.owner, chunk.segment) ∈ first.keysOf :=
        mem_keysOf.2 ⟨found, listed, same⟩
      rcases List.mem_cons.1 member with rfl | later
      · -- A data segment is in one chunk.
        have equal : found = chunk := List.inj_on_of_nodup_map own listed.val among.val
          (Prod.ext same.1 same.2)
        rw [search, equal]
        rfl
      · have there : (chunk.owner, chunk.segment) ∈ keys rest :=
          List.mem_flatMap.2 ⟨output, later, mem_keysOf.2 ⟨chunk, among, rfl, rfl⟩⟩
        exact absurd rfl (apart _ key _ there)

namespace Placed

theorem nodup_keys (placed : layout.Placed modules base) :
    (OutputSegment.keys layout.segments).Nodup :=
  placed.keys.nodup_iff.2 (nodup_positions _ modules)

/-- The address of a data segment is that of its chunk. -/
theorem address?_eq (placed : layout.Placed modules base) {output : OutputSegment} {chunk : Chunk}
    (member : output ∈ layout.segments) (among : chunk ∈ output.chunks) :
    layout.address? chunk.owner chunk.segment = some (output.address + chunk.offset) :=
  findSome?_chunk placed.nodup_keys member among

/-- There are no more output segments than data segments of inputs. -/
theorem length_le (placed : layout.Placed modules base) :
    layout.segments.length ≤ countAll (·.dataSegments.size) modules := by
  have keys := placed.keys.length_eq
  rw [length_positions] at keys
  rw [← keys]
  have laid := placed.laid
  generalize layout.segments = segments at laid
  induction segments with
  | nil => exact Nat.zero_le _
  | cons first rest ih =>
    obtain ⟨one, others⟩ := List.forall_mem_cons.1 laid
    have some : 0 < first.keysOf.length := by
      rw [keysOf, List.length_map]
      exact List.length_pos_of_ne_nil one.some
    have more := ih others
    rw [List.length_cons, keys_cons, List.length_append]
    omega

/-- A data segment has a chunk, which is where its address is. -/
theorem exists_chunk (placed : layout.Placed modules base) {input : DataSegment}
    (here : dataSegment? modules owner position = some input) :
    ∃ output ∈ layout.segments, ∃ chunk ∈ output.chunks,
      chunk.owner = owner ∧ chunk.segment = position := by
  obtain ⟨module, found, within⟩ := dataSegment?_eq_some.1 here
  have listed : (owner, position) ∈ OutputSegment.keys layout.segments :=
    placed.keys.mem_iff.2 ((mem_positions (·.dataSegments.size)).2
      ⟨module, found, (Array.getElem?_eq_some_iff.1 within).1⟩)
  obtain ⟨output, member, listed⟩ := List.mem_flatMap.1 listed
  exact ⟨output, member, mem_keysOf.1 listed⟩

/-- A data segment has an address, and ends below the address limit. -/
theorem exists_address (placed : layout.Placed modules base) {input : DataSegment}
    (here : dataSegment? modules owner position = some input) :
    ∃ address, layout.address? owner position = some address ∧ base ≤ address ∧
      address + input.size < wordLimit := by
  obtain ⟨output, member, chunk, among, rfl, rfl⟩ := placed.exists_chunk here
  obtain ⟨_, same, -, inside⟩ :=
    (placed.laid output member).stacked.inside (Array.mem_toList_iff.2 among)
  cases here.symm.trans same
  obtain ⟨behind, -, small⟩ := placed.packed.inside member
  refine ⟨_, placed.address?_eq member among, by omega, ?_⟩
  unfold OutputSegment.stop at small
  omega

end Placed

end DataLayout

end StaticLink
