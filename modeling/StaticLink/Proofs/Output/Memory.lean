import StaticLink.Proofs.Inputs.Sizes
import StaticLink.Proofs.Output.Copies

/-!
# The initial memory

Addresses are given out before any data is copied, and the copying counts the bytes between data
segments once more. The two agree: every data segment is found at its address.

* `Memory.initial`: a memory after some images have been written to it.
* `Program.fills_of_fillChunks`: what is in an output segment.
* `Program.DataInside`: static data lies below the stack, in segments that do not overlap.
* `Program.HoldsData`: a memory holds the data of all inputs, relocated.
* `link_memory`: the data of a linked module makes such a memory.
-/

namespace StaticLink

/-! ## Memories -/

/-- The bytes of a memory by their addresses. -/
abbrev Memory := Nat → UInt8

namespace Memory

variable {memory : Memory} {image : Nat × Bytes} {images : List (Nat × Bytes)} {position i : Nat}
  {byte : UInt8}

/-- The memory after bytes have been written to it from an address on. -/
def write (memory : Memory) (image : Nat × Bytes) : Memory := fun position =>
  if image.1 ≤ position then (image.2[position - image.1]?).getD (memory position)
  else memory position

/-- The memory of a module that has been instantiated: zeros with these bytes written to them. -/
def initial (images : List (Nat × Bytes)) : Memory := images.foldl write fun _ => 0

/-- The bytes from an address on. -/
def read (memory : Memory) (address size : Nat) : Bytes :=
  (List.range size).map fun i => memory (address + i)

theorem write_of_inside (here : image.2[i]? = some byte) :
    memory.write image (image.1 + i) = byte := by
  rw [write, if_pos (Nat.le_add_right _ _), Nat.add_sub_cancel_left, here]
  rfl

theorem write_of_outside (outside : ¬ (image.1 ≤ position ∧ position < image.1 + image.2.length)) :
    memory.write image position = memory position := by
  unfold write
  split
  · next behind =>
    rw [List.getElem?_eq_none (by omega)]
    rfl
  · rfl

theorem foldl_write_of_outside (outside : ∀ image ∈ images,
    ¬ (image.1 ≤ position ∧ position < image.1 + image.2.length)) :
    images.foldl write memory position = memory position := by
  induction images generalizing memory with
  | nil => rfl
  | cons first rest ih =>
    obtain ⟨one, others⟩ := List.forall_mem_cons.1 outside
    rw [List.foldl_cons, ih others, write_of_outside one]

/-- Where images lie one behind the other, each of them stays. -/
theorem initial_of_apart
    (apart : images.Pairwise fun first second => first.1 + first.2.length ≤ second.1)
    (member : image ∈ images) (here : image.2[i]? = some byte) :
    initial images (image.1 + i) = byte := by
  obtain ⟨earlier, later, rfl⟩ := List.append_of_mem member
  have small := (List.getElem?_eq_some_iff.1 here).1
  obtain ⟨-, apart, -⟩ := List.pairwise_append.1 apart
  rw [initial, List.foldl_append, List.foldl_cons, foldl_write_of_outside, write_of_inside here]
  -- Later images begin behind this one.
  intro other behind
  have := (List.pairwise_cons.1 apart).1 other behind
  omega

theorem getElem?_read (memory : Memory) (address size i : Nat) :
    (memory.read address size)[i]? = if i < size then some (memory (address + i)) else none := by
  rw [read, List.getElem?_map]
  split
  · next inside => rw [List.getElem?_range inside, Option.map_some]
  · next outside =>
    rw [List.getElem?_eq_none (by rw [List.length_range]; omega), Option.map_none]

theorem read_eq {bytes : Bytes} {address : Nat}
    (same : ∀ i byte, bytes[i]? = some byte → memory (address + i) = byte) :
    memory.read address bytes.length = bytes := by
  apply List.ext_getElem?
  intro i
  rw [getElem?_read]
  split
  · next inside =>
    have here := List.getElem?_eq_getElem inside
    rw [here, same i _ here]
  · next outside => rw [List.getElem?_eq_none (by omega)]

/-- Fewer bytes are those of a window. -/
theorem read_window {address size offset width : Nat} {bytes : Bytes}
    (same : memory.read address size = bytes) (fits : offset + width ≤ size) :
    memory.read (address + offset) width = bytes.window offset width := by
  apply List.ext_getElem?
  intro i
  rw [Bytes.getElem?_window, ← same, getElem?_read, getElem?_read]
  split
  · rw [if_pos (by omega), Nat.add_assoc]
  · rfl

end Memory

namespace Bytes

variable {bytes first second : Bytes} {start width : Nat}

theorem window_append_right (behind : first.length ≤ start) :
    window (first ++ second) start width = second.window (start - first.length) width := by
  rw [window, List.drop_append, List.drop_eq_nil_of_le behind, List.nil_append, window]

end Bytes

namespace Program

variable {program : Program} {chunk : Chunk} {contents bytes : Bytes} {size written : Nat}
  {chunks : List Chunk} {segment : OutputSegment} {segments : List OutputSegment}

/-! ## Output segments -/

theorem chunkContents_eq_ok (h : program.chunkContents chunk = .ok contents) :
    ∃ module found input, program.input chunk.owner = .ok module ∧
      module.section? .data = some found ∧ module.dataSegments[chunk.segment]? = some input ∧
      program.relocate chunk.owner found input.data = .ok contents := by
  obtain ⟨module, here, h⟩ := bind_eq_ok.1 h
  split at h
  · next found input first stands => exact ⟨module, found, input, here, first, stands, h⟩
  · cases h

/-- A chunk is as long as the data segment that it is made of. -/
theorem length_chunkContents {input : DataSegment}
    (here : dataSegment? program.modules chunk.owner chunk.segment = some input)
    (h : program.chunkContents chunk = .ok contents) : contents.length = input.size := by
  obtain ⟨module, found, other, there, -, stands, relocated⟩ := chunkContents_eq_ok h
  obtain ⟨module', here, stands'⟩ := dataSegment?_eq_some.1 here
  cases (existing_eq_ok.1 there).symm.trans here
  cases stands.symm.trans stands'
  exact length_relocate relocated

/-- An output segment is as long as it should be. Its chunks are at their offsets, and what is
between them is zero. -/
structure Fills (program : Program) (size written : Nat) (chunks : List Chunk) (bytes : Bytes) :
    Prop where
  length : bytes.length = size - written
  chunk : ∀ chunk ∈ chunks, ∃ contents, program.chunkContents chunk = .ok contents ∧
    bytes.window (chunk.offset - written) contents.length = contents
  zero : ∀ i, i < size - written → (∀ chunk ∈ chunks, ∀ contents,
    program.chunkContents chunk = .ok contents →
      ¬ (chunk.offset ≤ written + i ∧ written + i < chunk.offset + contents.length)) →
    bytes[i]? = some 0

/-- The bytes that are written add up to the offsets that were given out. -/
theorem fills_of_fillChunks (stacked : OutputSegment.Stacked program.modules size written chunks)
    (h : program.fillChunks size written chunks = .ok bytes) :
    program.Fills size written chunks bytes := by
  induction chunks generalizing written bytes with
  | nil =>
    cases h
    refine ⟨List.length_replicate, by simp, ?_⟩
    intro i small _
    rw [List.getElem?_replicate, if_pos small]
  | cons first rest ih =>
    obtain ⟨input, here, behind, others⟩ := stacked
    obtain ⟨contents, copied, h⟩ := bind_eq_ok.1 h
    obtain ⟨filled, later, rfl⟩ := return_eq_ok.1 h
    rw [← length_chunkContents here copied] at others
    obtain ⟨length, chunk, zero⟩ := ih others later
    have room := others.le
    have start : (List.replicate (first.offset - written) (0 : UInt8) ++ contents).length =
        first.offset + contents.length - written := by
      rw [List.length_append, List.length_replicate]
      omega
    refine ⟨?_, ?_, ?_⟩
    · rw [List.length_append, start, length]
      omega
    · intro other member
      rcases List.mem_cons.1 member with rfl | member
      · refine ⟨contents, copied, ?_⟩
        rw [List.append_assoc, Bytes.window_append_right (Nat.le_of_eq List.length_replicate),
          List.length_replicate, Nat.sub_self]
        exact List.take_left' rfl
      · obtain ⟨piece, done, there⟩ := chunk other member
        obtain ⟨_, -, after, -⟩ := others.inside member
        refine ⟨piece, done, ?_⟩
        rw [Bytes.window_append_right (by rw [start]; omega), start,
          show other.offset - written - (first.offset + contents.length - written) =
            other.offset - (first.offset + contents.length) by omega]
        exact there
    · intro i small outside
      obtain ⟨own, theirs⟩ := List.forall_mem_cons.1 outside
      have apart := own contents copied
      by_cases before : i < first.offset - written
      · rw [List.append_assoc, List.getElem?_append_left (by rw [List.length_replicate]; exact before),
          List.getElem?_replicate, if_pos before]
      · rw [List.getElem?_append_right (by rw [start]; omega), start]
        refine zero _ (by omega) ?_
        intro other member piece done covers
        refine theirs other member piece done ?_
        omega

/-! ## Images -/

/-- An image as it stands in the data section. -/
def imageBytes (image : Nat × Bytes) : Bytes :=
  segmentHeader image.1 ++ encodeNat image.2.length ++ image.2

/-- The image has the address and the contents of an output segment. -/
structure ImageOf (program : Program) (segment : OutputSegment) (image : Nat × Bytes) : Prop where
  address : image.1 = segment.address
  contents : program.segmentContents segment = .ok image.2
  fills : program.Fills segment.size 0 segment.chunks.toList image.2

theorem exists_images {entries : List Bytes}
    (laid : ∀ segment ∈ segments, segment.Laid program.modules)
    (h : segments.mapM program.dataEntry = .ok entries) :
    ∃ images, entries.flatten = images.flatMap imageBytes ∧
      List.Forall₂ program.ImageOf segments images := by
  induction segments generalizing entries with
  | nil =>
    cases h
    exact ⟨[], rfl, .nil⟩
  | cons segment rest ih =>
    obtain ⟨one, others⟩ := List.forall_mem_cons.1 laid
    rw [List.mapM_cons] at h
    obtain ⟨entry, first, h⟩ := bind_eq_ok.1 h
    obtain ⟨more, later, rfl⟩ := return_eq_ok.1 h
    obtain ⟨bytes, filled, rfl⟩ := return_eq_ok.1 first
    obtain ⟨images, same, each⟩ := ih others later
    have fills := fills_of_fillChunks one.stacked filled
    refine ⟨(segment.address, bytes) :: images, ?_, .cons ⟨rfl, filled, fills⟩ each⟩
    rw [List.flatten_cons, List.flatMap_cons, same, imageBytes, fills.length, Nat.sub_zero]

/-! ## The memory of a program -/

/-- Static data lies between the base and the stack, in segments that do not overlap, and the memory
ends with the stack. -/
structure DataInside (program : Program) (base : Nat) : Prop where
  apart : program.layout.segments.Pairwise fun first second => first.stop ≤ second.address
  inside : ∀ segment ∈ program.layout.segments,
    base ≤ segment.address ∧ segment.stop + stackSize ≤ program.stackTop
  pages : program.memoryLimits.initial.toNat * pageSize = program.stackTop
  small : program.stackTop < wordLimit

/-- The memory has the data segments of all inputs, relocated, and zeros around them. -/
structure HoldsSegments (program : Program) (memory : Memory) : Prop where
  relocated : ∀ (owner : ModuleId) (position : Nat) (input : DataSegment),
    dataSegment? program.modules owner position = some input →
    ∃ module found address result, program.input owner = .ok module ∧
      module.section? .data = some found ∧
      program.layout.address? owner position = some address ∧
      program.relocate owner found input.data = .ok result ∧
      memory.read address input.size = result
  zero : ∀ segment ∈ program.layout.segments, ∀ place, segment.address ≤ place →
    place < segment.stop →
    (∀ owner position address input, program.layout.address? owner position = some address →
      dataSegment? program.modules owner position = some input →
      ¬ (address ≤ place ∧ place < address + input.size)) →
    memory place = 0

/-- The memory also has what every data symbol stands for at the address of the symbol, if this is
inside a data segment. -/
structure HoldsData (program : Program) (memory : Memory) : Prop
    extends program.HoldsSegments memory where
  symbol : ∀ id symbol owner place offset size, program.symbols.get id = .ok symbol →
    symbol.target = .data (.defined owner place offset size) →
    ∃ module found input address result, program.input owner = .ok module ∧
      module.section? .data = some found ∧ module.dataSegments[place.toNat]? = some input ∧
      program.relocate owner found input.data = .ok result ∧
      program.dataAddress id = .ok address ∧
      (offset.toNat + size.toNat ≤ input.size →
        memory.read address size.toNat = result.window offset.toNat size.toNat)

theorem imageOf_ends {images : List (Nat × Bytes)}
    (all : List.Forall₂ program.ImageOf segments images) :
    images.map (fun image => (image.1, image.1 + image.2.length)) =
      segments.map fun segment => (segment.address, segment.stop) := by
  induction all with
  | nil => rfl
  | cons one _ ih =>
    rw [List.map_cons, List.map_cons, ih, one.address, one.fills.length, Nat.sub_zero]
    rfl

theorem exists_imageOf {images : List (Nat × Bytes)}
    (all : List.Forall₂ program.ImageOf segments images) (member : segment ∈ segments) :
    ∃ image ∈ images, program.ImageOf segment image := by
  induction all with
  | nil => cases member
  | cons one _ ih =>
    rcases List.mem_cons.1 member with rfl | later
    · exact ⟨_, List.mem_cons_self, one⟩
    · obtain ⟨image, among, is⟩ := ih later
      exact ⟨image, List.mem_cons_of_mem _ among, is⟩

/-- The bytes of a segment are in the memory. -/
theorem initial_of_imageOf {images : List (Nat × Bytes)}
    (apart : segments.Pairwise fun first second => first.stop ≤ second.address)
    (all : List.Forall₂ program.ImageOf segments images) (member : segment ∈ segments) :
    ∃ bytes, program.Fills segment.size 0 segment.chunks.toList bytes ∧
      ∀ i byte, bytes[i]? = some byte → Memory.initial images (segment.address + i) = byte := by
  have apart' : images.Pairwise fun first second => first.1 + first.2.length ≤ second.1 := by
    have ends := imageOf_ends all
    have both : (segments.map fun segment => (segment.address, segment.stop)).Pairwise
        fun first second => first.2 ≤ second.1 := List.pairwise_map.2 apart
    rw [← ends] at both
    exact List.pairwise_map.1 both
  obtain ⟨image, among, is⟩ := exists_imageOf all member
  refine ⟨image.2, is.fills, ?_⟩
  intro i byte here
  rw [← is.address]
  exact Memory.initial_of_apart apart' among here

variable {base : Nat}

theorem dataInside_of_placed (placed : program.layout.Placed program.modules base)
    (top : StaticLink.stackTop program.layout.stop = .ok program.stackTop) :
    program.DataInside base := by
  obtain ⟨start, aligned, top⟩ := bind_eq_ok.1 top
  obtain ⟨small, top⟩ := address?_eq_some.1 (fitting_eq_ok.1 top)
  have aligned := fitting_eq_ok.1 aligned
  have behind : program.layout.stop ≤ start := le_of_alignUp? (by decide) aligned
  obtain ⟨pages, rfl⟩ : pageSize ∣ start := by
    obtain ⟨_, -, rfl⟩ := Option.map_eq_some_iff.1 aligned
    exact dvd_alignUp _ _
  have whole : program.stackTop = pageSize * (pages + 1) := top
  have few : (UInt32.ofNat (stackPages program.stackTop)).toNat = pages + 1 := by
    rw [stackPages, whole, Nat.mul_div_cancel_left _ (by decide)]
    refine UInt32.toNat_ofNat_of_lt' ?_
    unfold pageSize stackSize pageSize wordLimit at small
    unfold UInt32.size
    omega
  refine ⟨placed.packed.apart, ?_, ?_, by rw [top]; exact small⟩
  · intro segment member
    obtain ⟨first, last, -⟩ := placed.packed.inside member
    exact ⟨first, by omega⟩
  · rw [memoryLimits, few, whole, Nat.mul_comm]

/-- The memory that the images of a layout make holds the data segments of all inputs. -/
theorem holdsSegments_of_imageOf {images : List (Nat × Bytes)}
    (placed : program.layout.Placed program.modules base)
    (all : List.Forall₂ program.ImageOf program.layout.segments images) :
    program.HoldsSegments (Memory.initial images) := by
  refine ⟨?_, ?_⟩
  · intro owner position input here
    obtain ⟨output, member, chunk, among, rfl, rfl⟩ := placed.exists_chunk here
    obtain ⟨bytes, fills, holds⟩ := initial_of_imageOf placed.packed.apart all member
    obtain ⟨contents, copied, window⟩ := fills.chunk chunk (Array.mem_toList_iff.2 among)
    obtain ⟨module, found, other, stands, first, there, relocated⟩ := chunkContents_eq_ok copied
    have length := length_chunkContents here copied
    obtain ⟨module', stands', here⟩ := dataSegment?_eq_some.1 here
    cases (existing_eq_ok.1 stands).symm.trans stands'
    cases there.symm.trans here
    refine ⟨module, found, _, contents, stands, first, placed.address?_eq member among,
      relocated, ?_⟩
    rw [← length]
    apply Memory.read_eq
    intro i byte inside
    rw [Nat.add_assoc]
    apply holds
    -- What is in the window of the chunk is in the segment.
    rw [← window, Nat.sub_zero, Bytes.getElem?_window] at inside
    split at inside
    · exact inside
    · cases inside
  · intro segment member place behind before outside
    obtain ⟨bytes, fills, holds⟩ := initial_of_imageOf placed.packed.apart all member
    obtain ⟨i, rfl⟩ := Nat.exists_eq_add_of_le behind
    apply holds
    have small : i < segment.size := Nat.lt_of_add_lt_add_left before
    apply fills.zero i small
    intro chunk among contents copied covers
    have among := Array.mem_toList_iff.1 among
    obtain ⟨input, here, -, -⟩ := (placed.laid segment member).stacked.inside
      (Array.mem_toList_iff.2 among)
    have length := length_chunkContents here copied
    refine outside chunk.owner chunk.segment _ input (placed.address?_eq member among) here ?_
    omega

/-- A data symbol has the address of its bytes. -/
theorem HoldsSegments.holdsData {inputs : List (String × Bytes)} {memory : Memory}
    (holds : program.HoldsSegments memory) (sound : program.Sound inputs) :
    program.HoldsData memory where
  toHoldsSegments := holds
  symbol := by
    intro id symbol owner place offset size stands target
    obtain ⟨module, here, has⟩ := sound.target_within stands owner (by rw [target]; rfl)
    rw [target] at has
    have there := Array.getElem?_eq_getElem has
    obtain ⟨_, found, start, result, same, first, address, relocated, read⟩ :=
      holds.relocated owner place.toNat _ (dataSegment?_eq_some.2 ⟨module, here, there⟩)
    cases (existing_eq_ok.1 same).symm.trans here
    refine ⟨module, found, _, start + offset.toNat, result, same, first, there, relocated, ?_, ?_⟩
    · refine bind_eq_ok.2 ⟨symbol, stands, ?_⟩
      simp only [target, address]
      rfl
    · intro fits
      exact Memory.read_window read fits

end Program

/-- The data of a linked module lies below its stack and does not overlap. On instantiation it makes
a memory in which every data segment of an input stands at its address, relocated and with zeros
around it, so that every data symbol has the address of its bytes.

The number of segments is written as a word. Where it is a positive multiple of `wordLimit`, that word
is zero and the data is left out, but inputs of fewer than `wordLimit` bytes have no such number. -/
theorem link_memory {inputs : List (String × Bytes)} {options : Options} {output : Bytes}
    (linked : link inputs options = .ok output) :
    ∃ program interface contents, Program.ofInputs inputs options = .ok program ∧
      program.Written interface contents output ∧
      program.DataInside options.globalBase.toNat ∧
      contents .memories = some (Program.encodeNat 1 ++ program.memoryLimits.encode) ∧
      -- The number of segments is one that their count can spell.
      (totalSize inputs < wordLimit → program.layout.segments.length < wordLimit) ∧
      ((UInt32.ofNat program.layout.segments.length = 0 → program.layout.segments = []) →
        ∃ images, contents .data = (if images.length = 0 then none else
            some (Program.encodeNat images.length ++ images.flatMap Program.imageBytes)) ∧
          images.map (fun image => (image.1, image.1 + image.2.length)) =
            program.layout.segments.map (fun segment => (segment.address, segment.stop)) ∧
          program.HoldsData (Memory.initial images)) := by
  obtain ⟨program, interface, decided, -, written⟩ := exists_written_of_link linked
  obtain ⟨session, -, parts⟩ := Program.decided_of_ofInputs decided
  have sound := Program.sound_of_ofInputs decided
  have measured := Program.measured_of_ofInputs decided
  have placed := DataLayout.placed_of_ofModules parts.layout
  refine ⟨program, interface, _, decided, written,
    Program.dataInside_of_placed placed parts.stackTop, ?_, ?_, ?_⟩
  · exact (Except.ok.inj (written.made .memories)).symm
  · intro small
    have few := placed.length_le
    have weight : countAll (·.dataSegments.size) program.modules ≤
        countAll (·.weight) program.modules := by
      refine countAll_le fun module _ => ?_
      unfold ObjectModule.weight
      omega
    exact measured.lt_wordLimit small (by omega)
  · intro counted
    rcases vectorContents_eq_ok (written.made .data) with ⟨zero, none⟩ | ⟨any, bytes, produced, some⟩
    · have all : List.Forall₂ program.ImageOf program.layout.segments [] := by
        rw [counted zero]
        exact .nil
      exact ⟨[], none, Program.imageOf_ends all,
        (Program.holdsSegments_of_imageOf placed all).holdsData sound⟩
    · obtain ⟨entries, each, rfl⟩ := return_eq_ok.1 produced
      obtain ⟨images, same, all⟩ := Program.exists_images placed.laid each
      refine ⟨images, ?_, Program.imageOf_ends all,
        (Program.holdsSegments_of_imageOf placed all).holdsData sound⟩
      rw [all.length_eq] at any
      rw [if_neg (by intro zero; rw [zero] at any; exact any rfl), ← same, some, all.length_eq]
      rfl

/-- An input with four bytes of data and a symbol for two of them. -/
def constants : List (String × Bytes) :=
  [("constants.o",
      [0, 97, 115, 109, 1, 0, 0, 0, 11, 10, 1, 0, 65, 0, 11, 4, 1, 2, 3, 4, 0, 19, 7, 108, 105, 110,
        107, 105, 110, 103, 2, 8, 8, 1, 1, 0, 1, 100, 0, 1, 2])]

/-- The symbol has the address of its bytes. -/
theorem link_constants :
    ∃ (program : Program) (contents : SectionId → Option Bytes) (images : List (Nat × Bytes)),
      contents .data =
        some (Program.encodeNat images.length ++ images.flatMap Program.imageBytes) ∧
      program.HoldsData (Memory.initial images) ∧ program.dataAddress 0 = .ok 1025 ∧
      ∃ module found input result, program.input 0 = .ok module ∧
        module.section? .data = some found ∧ module.dataSegments[0]? = some input ∧
        program.relocate 0 found input.data = .ok result ∧
        (Memory.initial images).read 1025 2 = result.window 1 2 := by
  have accepted : (link constants {}).isOk = true := by decide +kernel
  have facts : ((Program.ofInputs constants {}).map fun program =>
      (program.layout.segments.length, program.symbols.records[0]?.map (·.target),
        (dataSegment? program.modules 0 0).map (·.size))) =
        .ok (1, some (.data (.defined 0 0 1 2)), some 4) := by decide +kernel
  have addresses : (Program.ofInputs constants {} >>= fun program => program.dataAddress 0) =
      .ok 1025 := by decide +kernel
  rcases linked : link constants {} with error | output
  · rw [linked] at accepted
    cases accepted
  obtain ⟨program, _, contents, decided, -, -, -, -, all⟩ := link_memory linked
  rw [decided] at facts addresses
  obtain ⟨count, facts⟩ := Prod.mk.inj (Except.ok.inj facts)
  obtain ⟨target, size⟩ := Prod.mk.inj facts
  obtain ⟨symbol, stands, target⟩ := Option.map_eq_some_iff.1 target
  obtain ⟨input, here, size⟩ := Option.map_eq_some_iff.1 size
  obtain ⟨images, data, ends, holds⟩ := all (by rw [count]; intro zero; cases zero)
  have some' : images.length ≠ 0 := by
    have length := congrArg List.length ends
    rw [List.length_map, List.length_map, count] at length
    omega
  rw [if_neg some'] at data
  obtain ⟨module, found, other, address, result, stands', first, there, relocated, at', read⟩ :=
    holds.symbol 0 symbol 0 0 1 2 (existing_eq_ok.2 stands) target
  cases at'.symm.trans addresses
  obtain ⟨module', same, here⟩ := dataSegment?_eq_some.1 here
  cases (existing_eq_ok.1 stands').symm.trans same
  cases there.symm.trans here
  refine ⟨program, contents, images, data, holds, at', module, found, input, result, stands', first,
    there, relocated, read ?_⟩
  rw [size]
  decide

end StaticLink
