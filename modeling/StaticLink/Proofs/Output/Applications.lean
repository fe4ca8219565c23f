import StaticLink.Proofs.Inputs.Placement
import StaticLink.Proofs.Output.Copies

/-!
# How often a relocation is applied

The linker copies ranges of its inputs, and applies to each range those relocations of a section
whose operands start there. A relocation whose operand starts nowhere in these ranges is not looked
at, and only data is checked for such relocations beforehand.

* `Program.copies`: the ranges that are copied, each as often as it is copied;
  `Program.CopiesOut`: these are the ranges that the linked module is made of.
* `Program.AppliedOnce`: a relocation that is applied once, to an operand that is copied as a whole.
* `Program.Reaches`: a relocation whose operand starts in what is copied of its section.
* `link_applies_once_iff`: the relocations that are applied once are those that reach a copy.
-/

namespace StaticLink

/-! ## The ranges that are copied -/

/-- A range of an input that is copied under the relocations of one of the input's sections. -/
structure CopiedRange where
  owner : ModuleId
  /-- The position of the section in its module. -/
  place : Nat
  range : Span
deriving DecidableEq, Repr

namespace CopiedRange

/-- Whether what is at `position` in the file of input `owner` is copied here under the relocations
of the section at `place`. -/
def Takes (copy : CopiedRange) (owner : ModuleId) (place position : Nat) : Prop :=
  copy.owner = owner ∧ copy.place = place ∧ position ∈ copy.range

instance (copy : CopiedRange) (owner : ModuleId) (place position : Nat) :
    Decidable (copy.Takes owner place position) :=
  inferInstanceAs (Decidable (_ ∧ _ ∧ _))

/-- Nothing is copied under the same relocations in both. -/
def Apart (first second : CopiedRange) : Prop :=
  ∀ owner place position, first.Takes owner place position → ¬ second.Takes owner place position

end CopiedRange

/-- The position of the first section with this id. -/
def ObjectModule.sectionPlace? (module : ObjectModule) (id : SectionId) : Option Nat :=
  module.sections.findIdx? (·.header.id == id)

namespace Program

/-- The payload of the first section with this id, in each input that has one. -/
def payloadCopies (program : Program) (id : SectionId) : List CopiedRange :=
  program.modules.zipIdx.filterMap fun (module, owner) => do
    let place ← module.sectionPlace? id
    let found ← module.sections[place]?
    return ⟨owner, place, found.header.payload⟩

/-- The data segment that a chunk is made of. -/
def chunkCopy? (program : Program) (chunk : Chunk) : Option CopiedRange := do
  let module ← program.modules[chunk.owner]?
  let place ← module.sectionPlace? .data
  let segment ← module.dataSegments[chunk.segment]?
  return ⟨chunk.owner, place, segment.data⟩

/-- Whether the linked module has a section for the entries with this id that are copied out of
inputs. It has none without any entries. -/
def Emits (program : Program) : SectionId → Prop
  | .code => UInt32.ofNat program.codeCount ≠ 0
  | .globals => UInt32.ofNat program.globalCount ≠ 0
  | .data => UInt32.ofNat program.layout.segments.length ≠ 0
  | _ => False

instance (program : Program) (id : SectionId) : Decidable (program.Emits id) := by
  unfold Emits
  split <;> infer_instance

/-- The data segments of the inputs in the order of the linked module. -/
def chunks (program : Program) : List Chunk :=
  program.layout.segments.flatMap fun segment => segment.chunks.toList

/-- The ranges that are copied into the section of the linked module with this id. -/
def copiesFor (program : Program) (id : SectionId) : List CopiedRange :=
  if program.Emits id then
    if id = .data then program.chunks.filterMap program.chunkCopy? else program.payloadCopies id
  else []

/-- All ranges of inputs that are copied and relocated. -/
def copies (program : Program) : List CopiedRange :=
  [SectionId.globals, .code, .data].flatMap program.copiesFor

/-- Copies a range and applies the relocations whose operands start there. -/
def perform (program : Program) (copy : CopiedRange) : Except Error Bytes := do
  let module ← program.input copy.owner
  let found ← existing module.sections[copy.place]?
  program.relocate copy.owner found copy.range

end Program

/-- The contents are these pieces in their order, with zeros between them. -/
inductive Padded : (pieces : List Bytes) → (contents : Bytes) → Prop
  | nil (count : Nat) : Padded [] (List.replicate count 0)
  | cons (count : Nat) (piece : Bytes) {pieces : List Bytes} {contents : Bytes}
      (rest : Padded pieces contents) :
    Padded (piece :: pieces) (List.replicate count 0 ++ piece ++ contents)

/-- The copied ranges are those that the linked module is made of, and it has each of them as often
as it is listed. -/
structure Program.CopiesOut (program : Program) (output : Bytes) : Prop where
  /-- A range is copied, and then the relocations that start there are applied to it one after the
  other. -/
  performed : ∀ copy ∈ program.copies, ∃ module found original piece,
    program.modules[copy.owner]? = some module ∧ module.sections[copy.place]? = some found ∧
    module.slice copy.range = .ok original ∧
    (found.operands copy.range).foldlM (fun bytes relocation => program.relocateOperand copy.owner
      relocation (found.position relocation) (found.start copy.range.start relocation) bytes)
      original = .ok piece ∧
    program.perform copy = .ok piece ∧ piece <:+: output
  /-- The contents of code or global sections come one after the other. -/
  payloads : ∀ id contents, program.relocateSections id = .ok contents →
    ∃ pieces, (program.payloadCopies id).mapM program.perform = .ok pieces ∧
      contents = pieces.flatten
  /-- An output segment is made of its data segments, with zeros between them. -/
  segments : ∀ segment contents, program.segmentContents segment = .ok contents →
    ∃ pieces, (segment.chunks.toList.filterMap program.chunkCopy?).mapM program.perform =
      .ok pieces ∧ Padded pieces contents

/-! ## The first section of an id -/

namespace ObjectModule

variable {module : ObjectModule} {id : SectionId} {place : Nat} {found : Section}

/-- The first section with an id is at its position. -/
theorem section?_eq_some_iff : module.section? id = some found ↔
    ∃ place, module.sectionPlace? id = some place ∧ module.sections[place]? = some found := by
  unfold section? sectionPlace?
  constructor
  · intro first
    obtain ⟨same, place, small, here, before⟩ := Array.find?_eq_some_iff_getElem.1 first
    refine ⟨place, Array.findIdx?_eq_some_iff_getElem.2 ⟨small, by rw [here]; exact same, ?_⟩,
      Array.getElem?_eq_some_iff.2 ⟨small, here⟩⟩
    intro earlier less
    have other := before earlier less
    simpa using other
  · rintro ⟨place, first, here⟩
    obtain ⟨small, same, before⟩ := Array.findIdx?_eq_some_iff_getElem.1 first
    obtain ⟨_, rfl⟩ := Array.getElem?_eq_some_iff.1 here
    refine Array.find?_eq_some_iff_getElem.2 ⟨same, place, small, rfl, ?_⟩
    intro earlier less
    have other := before earlier less
    simpa using other

theorem id_of_sectionPlace? (first : module.sectionPlace? id = some place) :
    ∃ found, module.sections[place]? = some found ∧ found.header.id = id := by
  obtain ⟨small, same, -⟩ := Array.findIdx?_eq_some_iff_getElem.1 first
  exact ⟨_, Array.getElem?_eq_some_iff.2 ⟨small, rfl⟩, by simpa using same⟩

/-- Two data segments of a module have no position in common. -/
theorem LaidOut.apart_data (laidOut : module.LaidOut) {i j position : Nat} {one two : DataSegment}
    (here : module.dataSegments[i]? = some one) (there : module.dataSegments[j]? = some two)
    (different : i ≠ j) (inside : position ∈ one.data) : position ∉ two.data := by
  have order := List.pairwise_iff_getElem.1 laidOut.data.pairwise
  obtain ⟨small, rfl⟩ := Array.getElem?_eq_some_iff.1 here
  obtain ⟨small', rfl⟩ := Array.getElem?_eq_some_iff.1 there
  intro inside'
  have bounds := Span.mem_def.1 inside
  have bounds' := Span.mem_def.1 inside'
  rcases Nat.lt_or_gt_of_ne different with less | more
  · have behind := order i j (by simpa using small) (by simpa using small') less
    simp only [List.getElem_map, Array.getElem_toList] at behind
    omega
  · have behind := order j i (by simpa using small') (by simpa using small) more
    simp only [List.getElem_map, Array.getElem_toList] at behind
    omega

/-- Where data relocations are checked, each of the first data section starts in a data segment. -/
theorem exists_segment_of_checked {relocation : Relocation}
    (checked : module.checkDataRelocations = .ok ()) (first : module.section? .data = some found)
    (member : relocation ∈ found.relocations) :
    ∃ (position : Nat) (segment : DataSegment), module.dataSegments[position]? = some segment ∧
      found.position relocation ∈ segment.data := by
  rcases stray : module.strayRelocation? with _ | ⟨offset, position⟩
  · simp only [strayRelocation?, first, Option.bind_eq_bind, Option.bind_some,
      List.findSome?_eq_none_iff] at stray
    have inside := stray relocation member.val
    split at inside
    · next any =>
      obtain ⟨segment, listed, within⟩ := Array.any_eq_true'.1 any
      obtain ⟨place, here⟩ := Array.mem_iff_getElem?.1 listed
      exact ⟨place, segment, here, of_decide_eq_true within⟩
    · cases inside
  · rw [checkDataRelocations, stray] at checked
    cases checked

end ObjectModule

/-- The data relocations of all modules in a layout are checked. -/
theorem DataLayout.checked_of_ofModules {modules : List ObjectModule} {base : Nat}
    {layout : DataLayout} {module : ObjectModule} (h : ofModules modules base = .ok layout)
    (member : module ∈ modules) : module.checkDataRelocations = .ok () := by
  obtain ⟨merged, folded, -⟩ := bind_eq_ok.1 h
  obtain ⟨owner, input⟩ := List.mem_iff_getElem?.1 member
  have listed : (module, owner) ∈ modules.zipIdx := List.mk_mem_zipIdx_iff_getElem?.2 input
  refine foldlM_reaches (fun _ => module.checkDataRelocations = .ok ()) folded
    (fun _ _ _ _ checked => checked) ?_ listed
  intro before after step
  obtain ⟨⟨⟩, checked, -⟩ := bind_eq_ok.1 step
  exact checked

namespace Program

variable {program : Program} {output : Bytes} {copy : CopiedRange} {id : SectionId}
  {owner : ModuleId} {place position : Nat} {module : ObjectModule} {found : Section}

/-! ## Members of the list -/

theorem mem_payloadCopies : copy ∈ program.payloadCopies id ↔
    ∃ module found, program.modules[copy.owner]? = some module ∧
      module.sectionPlace? id = some copy.place ∧ module.sections[copy.place]? = some found ∧
      copy.range = found.header.payload := by
  simp only [payloadCopies, List.mem_filterMap, Prod.exists, List.mk_mem_zipIdx_iff_getElem?,
    Option.bind_eq_bind, Option.bind_eq_some_iff, Option.pure_def, Option.some.injEq]
  constructor
  · rintro ⟨module, owner, input, place, first, found, here, rfl⟩
    exact ⟨module, found, input, first, here, rfl⟩
  · rintro ⟨module, found, input, first, here, range⟩
    exact ⟨module, copy.owner, input, copy.place, first, found, here, by rw [← range]⟩

theorem chunkCopy?_eq_some {chunk : Chunk} : program.chunkCopy? chunk = some copy ↔
    ∃ module segment, copy.owner = chunk.owner ∧ program.modules[chunk.owner]? = some module ∧
      module.sectionPlace? .data = some copy.place ∧
      module.dataSegments[chunk.segment]? = some segment ∧ copy.range = segment.data := by
  simp only [chunkCopy?, Option.bind_eq_bind, Option.bind_eq_some_iff, Option.pure_def,
    Option.some.injEq]
  constructor
  · rintro ⟨module, input, place, first, segment, here, rfl⟩
    exact ⟨module, segment, rfl, input, first, here, rfl⟩
  · rintro ⟨module, segment, same, input, first, here, range⟩
    exact ⟨module, input, copy.place, first, segment, here, by rw [← same, ← range]⟩

theorem mem_chunks {chunk : Chunk} : chunk ∈ program.chunks ↔
    ∃ segment ∈ program.layout.segments, chunk ∈ segment.chunks := by
  simp only [chunks, List.mem_flatMap, Array.mem_toList_iff]

/-- What is copied for an id is copied under the relocations of first sections with this id: their
payloads, or data segments of their modules. -/
theorem exists_first_of_copiesFor (member : copy ∈ program.copiesFor id) :
    program.Emits id ∧ ∃ module found, program.modules[copy.owner]? = some module ∧
      module.sectionPlace? id = some copy.place ∧ module.sections[copy.place]? = some found ∧
      (id ≠ .data → copy.range = found.header.payload) ∧
      (id = .data → ∃ (position : Nat) (segment : DataSegment),
        module.dataSegments[position]? = some segment ∧ copy.range = segment.data) := by
  unfold copiesFor at member
  split at member
  · next emitted =>
    refine ⟨emitted, ?_⟩
    split at member
    · next data =>
      subst data
      obtain ⟨chunk, -, made⟩ := List.mem_filterMap.1 member
      obtain ⟨module, segment, same, input, first, here, range⟩ := chunkCopy?_eq_some.1 made
      obtain ⟨found, there, -⟩ := ObjectModule.id_of_sectionPlace? first
      rw [← same] at input
      exact ⟨module, found, input, first, there, fun other => absurd rfl other,
        fun _ => ⟨chunk.segment, segment, here, range⟩⟩
    · next other =>
      obtain ⟨module, found, input, first, here, range⟩ := mem_payloadCopies.1 member
      exact ⟨module, found, input, first, here, fun _ => range, fun data => absurd data other⟩
  · cases member

/-- Only code, globals and data are copied under relocations. -/
theorem mem_copies : copy ∈ program.copies ↔ ∃ id, copy ∈ program.copiesFor id := by
  unfold copies
  rw [List.mem_flatMap]
  constructor
  · rintro ⟨id, -, member⟩
    exact ⟨id, member⟩
  · rintro ⟨id, member⟩
    have emitted := (exists_first_of_copiesFor member).1
    refine ⟨id, ?_, member⟩
    cases id <;> first | exact emitted.elim | decide

/-- The ranges that are listed are those that the linked module takes over. -/
theorem copies_of_mem (member : copy ∈ program.copies) :
    ∃ module found, program.modules[copy.owner]? = some module ∧
      module.sections[copy.place]? = some found ∧
      program.Copies copy.owner found copy.range := by
  obtain ⟨id, member⟩ := mem_copies.1 member
  obtain ⟨emitted, module, found, input, first, here, payload, segment⟩ :=
    exists_first_of_copiesFor member
  refine ⟨module, found, input, here, ?_⟩
  have input : program.input copy.owner = .ok module := existing_eq_ok.2 input
  have first := ObjectModule.section?_eq_some_iff.2 ⟨copy.place, first, here⟩
  cases id with
  | code =>
    rw [payload (by decide)]
    exact .code input first emitted
  | globals =>
    rw [payload (by decide)]
    exact .globals input first emitted
  | data =>
    obtain ⟨position, segment, here, range⟩ := segment rfl
    rw [range]
    exact .data input first here emitted
  | _ => exact emitted.elim

/-! ## No two copies have anything in common -/

/-- Copies for different sections of the linked module have nothing in common. -/
theorem apart_of_copiesFor {first second : CopiedRange} {other : SectionId}
    (one : first ∈ program.copiesFor id) (two : second ∈ program.copiesFor other)
    (different : id ≠ other) : first.Apart second := by
  rintro owner place position ⟨rfl, rfl, -⟩ ⟨same, same', -⟩
  obtain ⟨-, module, -, input, here, -⟩ := exists_first_of_copiesFor one
  obtain ⟨-, module', -, input', there, -⟩ := exists_first_of_copiesFor two
  rw [same, input] at input'
  obtain rfl := Option.some.inj input'
  obtain ⟨found, at_place, is⟩ := ObjectModule.id_of_sectionPlace? here
  obtain ⟨found', at_place', is'⟩ := ObjectModule.id_of_sectionPlace? there
  rw [same', at_place] at at_place'
  obtain rfl := Option.some.inj at_place'
  exact different (is.symm.trans is')

theorem apart_payloadCopies (program : Program) (id : SectionId) :
    (program.payloadCopies id).Pairwise CopiedRange.Apart := by
  refine List.pairwise_filterMap.2 ?_
  have owners : program.modules.zipIdx.Pairwise fun first second => first.2 ≠ second.2 := by
    refine List.pairwise_map.1 ?_
    rw [List.zipIdx_map_snd]
    exact List.nodup_range'
  refine owners.imp ?_
  rintro ⟨module, owner⟩ ⟨module', owner'⟩ different copy here copy' there
  simp only [Option.bind_eq_bind, Option.bind_eq_some_iff, Option.pure_def,
    Option.some.injEq] at here there
  obtain ⟨place, -, found, -, rfl⟩ := here
  obtain ⟨place', -, found', -, rfl⟩ := there
  rintro owner place position ⟨rfl, -⟩ ⟨same, -⟩
  exact different same.symm

/-- Every data segment is copied at most once, and data segments of an input do not overlap. -/
theorem apart_chunkCopies {base : Nat} (placed : program.layout.Placed program.modules base)
    (laidOut : ∀ module ∈ program.modules, module.LaidOut) :
    (program.chunks.filterMap program.chunkCopy?).Pairwise CopiedRange.Apart := by
  have keys : (program.chunks.map fun chunk => (chunk.owner, chunk.segment)).Nodup := by
    rw [chunks, List.map_flatMap]
    exact placed.nodup_keys
  refine List.pairwise_filterMap.2 ((List.pairwise_map.1 keys).imp ?_)
  rintro chunk chunk' different copy made copy' made'
  obtain ⟨module, segment, same, input, -, here, range⟩ := chunkCopy?_eq_some.1 made
  obtain ⟨module', segment', same', input', -, here', range'⟩ := chunkCopy?_eq_some.1 made'
  rintro owner place position ⟨rfl, -, inside⟩ ⟨owners, -, inside'⟩
  rw [same, same'] at owners
  rw [owners, input] at input'
  obtain rfl := Option.some.inj input'
  rw [range] at inside
  rw [range'] at inside'
  have segments : chunk.segment ≠ chunk'.segment := fun equal =>
    different (Prod.ext owners.symm equal)
  exact (laidOut module (List.mem_of_getElem? input)).apart_data here here' segments inside inside'

theorem apart_copiesFor {base : Nat} (placed : program.layout.Placed program.modules base)
    (laidOut : ∀ module ∈ program.modules, module.LaidOut) (id : SectionId) :
    (program.copiesFor id).Pairwise CopiedRange.Apart := by
  unfold copiesFor
  split
  · split
    · exact apart_chunkCopies placed laidOut
    · exact apart_payloadCopies program id
  · exact .nil

theorem apart_copies {base : Nat} (placed : program.layout.Placed program.modules base)
    (laidOut : ∀ module ∈ program.modules, module.LaidOut) :
    program.copies.Pairwise CopiedRange.Apart := by
  have ids : [SectionId.globals, .code, .data].Pairwise (· ≠ ·) := by decide
  refine List.pairwise_flatMap.2 ⟨fun id _ => apart_copiesFor placed laidOut id, ?_⟩
  exact ids.imp fun different first one second two => apart_of_copiesFor one two different

/-! ## What is copied is relocated -/

/-- All operands that start in a range that was copied are in it as a whole. -/
theorem whole_of_relocate {range : Span} {result : Bytes} {relocation : Relocation}
    (h : program.relocate owner found range = .ok result)
    (member : relocation ∈ found.operands range) :
    found.position relocation + relocation.kind.encoding.width ≤ range.stop := by
  have size := length_relocate h
  rw [relocate_eq_foldlM] at h
  obtain ⟨module, -, h⟩ := bind_eq_ok.1 h
  obtain ⟨original, -, h⟩ := bind_eq_ok.1 h
  let Whole (bytes : Bytes) : Prop :=
    found.start range.start relocation + relocation.kind.encoding.width ≤ bytes.length
  have whole : Whole result := by
    refine foldlM_reaches Whole h ?_ ?_ member
    · intro before other after step whole
      exact Nat.le_trans whole (Nat.le_of_eq (length_relocateOperand step).symm)
    · intro before after step
      exact Nat.le_trans (relocateOperand_eq_ok_iff.1 step).1
        (Nat.le_of_eq (length_relocateOperand step).symm)
  have behind := start_le_position member
  unfold Whole Section.start at whole
  rw [size, Span.size] at whole
  have := Relocation.Encoding.width_pos relocation.kind.encoding
  omega

theorem perform_eq (copy : CopiedRange) (input : program.modules[copy.owner]? = some module)
    (here : module.sections[copy.place]? = some found) :
    program.perform copy = program.relocate copy.owner found copy.range := by
  have input : program.input copy.owner = .ok module := existing_eq_ok.2 input
  have here : existing module.sections[copy.place]? = .ok found := existing_eq_ok.2 here
  simp only [perform, input, here, bind, Except.bind]

/-- Items that are copied or else left out come to the same as what is left of them. -/
theorem flatten_filterMap {α β : Type} {items : List α} {pick : α → Option β}
    {copied : α → Except Error Bytes} {step : β → Except Error Bytes} {pieces : List Bytes}
    (h : items.mapM copied = .ok pieces)
    (picked : ∀ item ∈ items, ∀ chosen, pick item = some chosen → copied item = step chosen)
    (left : ∀ item ∈ items, pick item = none → copied item = .ok []) :
    ∃ others, (items.filterMap pick).mapM step = .ok others ∧ pieces.flatten = others.flatten := by
  induction items generalizing pieces with
  | nil =>
    cases h
    exact ⟨[], rfl, rfl⟩
  | cons item rest ih =>
    rw [List.mapM_cons] at h
    obtain ⟨piece, one, h⟩ := bind_eq_ok.1 h
    obtain ⟨tail, others, rfl⟩ := return_eq_ok.1 h
    obtain ⟨more, done, same⟩ := ih others (fun other member => picked other (.tail _ member))
      (fun other member => left other (.tail _ member))
    rcases chosen : pick item with _ | chosen
    · have nothing := left item List.mem_cons_self chosen
      rw [one] at nothing
      obtain rfl := Except.ok.inj nothing
      exact ⟨more, by rw [List.filterMap_cons_none chosen]; exact done, same⟩
    · have here := picked item List.mem_cons_self _ chosen
      rw [one] at here
      refine ⟨piece :: more, ?_, by rw [List.flatten_cons, same, List.flatten_cons]⟩
      rw [List.filterMap_cons_some chosen, List.mapM_cons, ← here, done]
      rfl

theorem perform_payloads {contents : Bytes} (h : program.relocateSections id = .ok contents) :
    ∃ pieces, (program.payloadCopies id).mapM program.perform = .ok pieces ∧
      contents = pieces.flatten := by
  obtain ⟨pieces, copied, rfl⟩ := return_eq_ok.1 h
  refine flatten_filterMap copied ?_ ?_
  · rintro ⟨module, owner⟩ member copy chosen
    simp only [Option.bind_eq_bind, Option.bind_eq_some_iff, Option.pure_def,
      Option.some.injEq] at chosen
    obtain ⟨place, first, found, here, rfl⟩ := chosen
    have input : program.modules[owner]? = some module := List.mk_mem_zipIdx_iff_getElem?.1 member
    rw [perform_eq ⟨owner, place, found.header.payload⟩ input here]
    simp only [ObjectModule.section?_eq_some_iff.2 ⟨place, first, here⟩]
  · rintro ⟨module, owner⟩ member absent
    rcases first : module.section? id with _ | found
    · simp only [first]
      rfl
    · obtain ⟨place, first, here⟩ := ObjectModule.section?_eq_some_iff.1 first
      simp only [first, here, Option.bind_eq_bind, Option.bind_some, Option.pure_def] at absent
      cases absent

/-- A chunk that is put into the output is copied. -/
theorem exists_copy_of_chunkContents {chunk : Chunk} {contents : Bytes}
    (h : program.chunkContents chunk = .ok contents) :
    ∃ copy, program.chunkCopy? chunk = some copy ∧ program.perform copy = .ok contents := by
  obtain ⟨module, input, h⟩ := bind_eq_ok.1 h
  have input := existing_eq_ok.1 input
  split at h
  · next found segment first here =>
    obtain ⟨place, first, there⟩ := ObjectModule.section?_eq_some_iff.1 first
    refine ⟨⟨chunk.owner, place, segment.data⟩,
      chunkCopy?_eq_some.2 ⟨module, segment, rfl, input, first, here, rfl⟩, ?_⟩
    rw [perform_eq ⟨chunk.owner, place, segment.data⟩ input there]
    exact h
  · cases h

theorem perform_chunks {size written : Nat} {chunks : List Chunk} {contents : Bytes}
    (h : program.fillChunks size written chunks = .ok contents) :
    ∃ pieces, (chunks.filterMap program.chunkCopy?).mapM program.perform = .ok pieces ∧
      Padded pieces contents := by
  induction chunks generalizing written contents with
  | nil =>
    cases h
    exact ⟨[], rfl, .nil _⟩
  | cons chunk rest ih =>
    obtain ⟨piece, here, h⟩ := bind_eq_ok.1 h
    obtain ⟨behind, later, rfl⟩ := return_eq_ok.1 h
    obtain ⟨copy, made, done⟩ := exists_copy_of_chunkContents here
    obtain ⟨pieces, others, padded⟩ := ih later
    refine ⟨piece :: pieces, ?_, .cons _ _ padded⟩
    rw [List.filterMap_cons_some made, List.mapM_cons, done, others]
    rfl

theorem copiesOut_of_contents {base : Nat} (contents : program.Contents output)
    (layout : DataLayout.ofModules program.modules base = .ok program.layout) :
    program.CopiesOut output where
  performed := by
    intro copy member
    obtain ⟨module, found, input, here, copies⟩ := copies_of_mem member
    obtain ⟨piece, relocated, within⟩ := exists_relocate_of_copies contents layout copies
    have done := perform_eq copy input here
    rw [relocated] at done
    rw [relocate_eq_foldlM] at relocated
    obtain ⟨again, same, relocated⟩ := bind_eq_ok.1 relocated
    obtain ⟨original, slice, steps⟩ := bind_eq_ok.1 relocated
    obtain rfl := Option.some.inj (input.symm.trans (existing_eq_ok.1 same))
    exact ⟨module, found, original, piece, input, here, slice, steps, done, within⟩
  payloads := fun _ _ => perform_payloads
  segments := fun _ _ => perform_chunks

/-! ## Relocations that are applied once -/

/-- The relocation, one of section `found` at `place` of input `owner`, is applied once, to an
operand that is copied as a whole. -/
structure AppliedOnce (program : Program) (owner : ModuleId) (place : Nat) (found : Section)
    (relocation : Relocation) : Prop where
  applied : ∃ copy ∈ program.copies, copy.Takes owner place (found.position relocation) ∧
    relocation ∈ found.operands copy.range ∧
    found.position relocation + relocation.kind.encoding.width ≤ copy.range.stop
  once : program.copies.countP (fun copy => copy.Takes owner place (found.position relocation)) = 1

/-- The operand of the relocation starts in what is copied of its section: this is the first of its
id, of which the linked module has entries, and the operand starts behind the number of entries. -/
structure Reaches (program : Program) (module : ObjectModule) (place : Nat) (found : Section)
    (relocation : Relocation) : Prop where
  first : module.sectionPlace? found.header.id = some place
  emitted : program.Emits found.header.id
  /-- Where operands of data start has been checked. -/
  inside : found.header.id ≠ .data → found.position relocation ∈ found.header.payload

instance (program : Program) (module : ObjectModule) (place : Nat) (found : Section)
    (relocation : Relocation) : Decidable (program.Reaches module place found relocation) :=
  decidable_of_iff (module.sectionPlace? found.header.id = some place ∧
      program.Emits found.header.id ∧
      (found.header.id ≠ .data → found.position relocation ∈ found.header.payload))
    ⟨fun ⟨first, emitted, inside⟩ => ⟨first, emitted, inside⟩,
      fun ⟨first, emitted, inside⟩ => ⟨first, emitted, inside⟩⟩

/-- Where some item counts and no two of them do, one counts. -/
theorem countP_eq_one {α : Type} {items : List α} {counts : α → Prop} [DecidablePred counts]
    {item : α} (apart : items.Pairwise fun first second => counts first → ¬ counts second)
    (member : item ∈ items) (here : counts item) : items.countP (fun item => counts item) = 1 := by
  induction items with
  | nil => cases member
  | cons first rest ih =>
    obtain ⟨others, later⟩ := List.pairwise_cons.1 apart
    by_cases now : counts first
    · have none : rest.countP (fun item => counts item) = 0 :=
        List.countP_eq_zero.2 fun other member => by simpa using others other member now
      simp [now, none]
    · rcases List.mem_cons.1 member with rfl | member
      · exact absurd here now
      · simpa [now] using ih later member

variable {relocation : Relocation}

/-- Where data relocations are checked, a relocation that reaches a copy starts in one. -/
theorem exists_copy_of_reaches {base : Nat}
    (layout : DataLayout.ofModules program.modules base = .ok program.layout)
    (input : program.modules[owner]? = some module) (here : module.sections[place]? = some found)
    (member : relocation ∈ found.relocations)
    (reaches : program.Reaches module place found relocation) :
    ∃ copy ∈ program.copies, copy.Takes owner place (found.position relocation) := by
  have emitted := reaches.emitted
  by_cases data : found.header.id = .data
  · have first := reaches.first
    rw [data] at first emitted
    have checked := DataLayout.checked_of_ofModules layout (List.mem_of_getElem? input)
    obtain ⟨position, segment, there, within⟩ := ObjectModule.exists_segment_of_checked checked
      (ObjectModule.section?_eq_some_iff.2 ⟨place, first, here⟩) member
    obtain ⟨output, among, chunk, listed, rfl, rfl⟩ :=
      (DataLayout.placed_of_ofModules layout).exists_chunk
        (dataSegment?_eq_some.2 ⟨module, input, there⟩)
    refine ⟨⟨chunk.owner, place, segment.data⟩, mem_copies.2 ⟨.data, ?_⟩, rfl, rfl, within⟩
    rw [copiesFor, if_pos emitted, if_pos rfl]
    exact List.mem_filterMap.2 ⟨chunk, mem_chunks.2 ⟨output, among, listed⟩,
      chunkCopy?_eq_some.2 ⟨module, segment, rfl, input, first, there, rfl⟩⟩
  · refine ⟨⟨owner, place, found.header.payload⟩, mem_copies.2 ⟨found.header.id, ?_⟩, rfl, rfl,
      reaches.inside data⟩
    rw [copiesFor, if_pos emitted, if_neg data]
    exact mem_payloadCopies.2 ⟨module, found, input, reaches.first, here, rfl⟩

/-- A relocation that is taken by a copy reaches it. -/
theorem reaches_of_takes (input : program.modules[owner]? = some module)
    (here : module.sections[place]? = some found) (member : copy ∈ program.copies)
    (takes : copy.Takes owner place (found.position relocation)) :
    program.Reaches module place found relocation := by
  obtain ⟨rfl, rfl, within⟩ := takes
  obtain ⟨id, member⟩ := mem_copies.1 member
  obtain ⟨emitted, module', found', input', first, here', payload, -⟩ :=
    exists_first_of_copiesFor member
  obtain rfl := Option.some.inj (input.symm.trans input')
  obtain rfl := Option.some.inj (here.symm.trans here')
  obtain ⟨again, there, is⟩ := ObjectModule.id_of_sectionPlace? first
  obtain rfl := Option.some.inj (here.symm.trans there)
  subst is
  refine ⟨first, emitted, ?_⟩
  intro other
  rw [← payload other]
  exact within

end Program

/-- Of all relocations in the inputs of a successful link, those that reach a copy are applied once,
to operands that are copied as a whole. The others are not looked at. -/
theorem link_applies_once_iff {inputs : List (String × Bytes)} {options : Options} {output : Bytes}
    (linked : link inputs options = .ok output) :
    ∃ program, Program.ofInputs inputs options = .ok program ∧ program.CopiesOut output ∧
      ∀ owner place module found relocation, program.modules[owner]? = some module →
        module.sections[place]? = some found → relocation ∈ found.relocations →
        (program.AppliedOnce owner place found relocation ↔
          program.Reaches module place found relocation) ∧
        (¬ program.Reaches module place found relocation →
          ∀ copy ∈ program.copies, ¬ copy.Takes owner place (found.position relocation)) := by
  obtain ⟨program, decided, contents⟩ := exists_program_of_link linked
  obtain ⟨session, -, parts⟩ := Program.decided_of_ofInputs decided
  have copiesOut := Program.copiesOut_of_contents contents parts.layout
  have placed := DataLayout.placed_of_ofModules parts.layout
  have laidOut := Program.laidOut_of_ofInputs decided
  refine ⟨program, decided, copiesOut, ?_⟩
  intro owner place module found relocation input here member
  refine ⟨⟨?_, ?_⟩, ?_⟩
  · rintro ⟨⟨copy, among, takes, -⟩, -⟩
    exact Program.reaches_of_takes input here among takes
  · intro reaches
    obtain ⟨copy, among, takes⟩ :=
      Program.exists_copy_of_reaches parts.layout input here member reaches
    have apart := (Program.apart_copies placed laidOut).imp fun apart =>
      apart owner place (found.position relocation)
    refine ⟨⟨copy, among, takes, ?_⟩, Program.countP_eq_one apart among takes⟩
    obtain ⟨rfl, rfl, within⟩ := takes
    have listed : relocation ∈ found.operands copy.range :=
      List.mem_filter.2 ⟨member.val, decide_eq_true within⟩
    obtain ⟨module', found', -, piece, input', here', -, -, performed, -⟩ :=
      copiesOut.performed copy among
    rw [Program.perform_eq copy input here] at performed
    exact ⟨listed, Program.whole_of_relocate performed listed⟩
  · intro misses copy among takes
    exact misses (Program.reaches_of_takes input here among takes)

/-- The relocations of the first section with this id in an input, each with whether it reaches a
copy and the number of copies that take it. -/
def Program.takers (program : Program) (owner : ModuleId) (id : SectionId) :
    Except Error (List (Relocation × Bool × Nat)) := do
  let module ← program.input owner
  let place ← existing (module.sectionPlace? id)
  let found ← existing module.sections[place]?
  return found.relocations.toList.map fun relocation =>
    (relocation, decide (program.Reaches module place found relocation),
      program.copies.countP fun copy => copy.Takes owner place (found.position relocation))

/-- The relocation of the call in the second input of `pair` is applied once. -/
theorem link_pair_applies_once :
    ∃ (program : Program) (module : ObjectModule) (place : Nat) (found : Section)
      (relocation : Relocation), program.CopiesOut linkedPair ∧
      program.modules[1]? = some module ∧ module.sections[place]? = some found ∧
      relocation = ⟨.functionIndexLeb, 4, 0, 0⟩ ∧ relocation ∈ found.relocations ∧
      program.AppliedOnce 1 place found relocation := by
  have linked : link pair {} = .ok linkedPair := by decide +kernel
  have facts : (Program.ofInputs pair {} >>= (·.takers 1 .code)) =
      .ok [(⟨.functionIndexLeb, 4, 0, 0⟩, true, 1)] := by decide +kernel
  obtain ⟨program, decided, copiesOut, each⟩ := link_applies_once_iff linked
  rw [decided] at facts
  have facts : program.takers 1 .code = .ok [(⟨.functionIndexLeb, 4, 0, 0⟩, true, 1)] := facts
  obtain ⟨module, input, facts⟩ := bind_eq_ok.1 facts
  obtain ⟨place, -, facts⟩ := bind_eq_ok.1 facts
  obtain ⟨found, here, facts⟩ := return_eq_ok.1 facts
  have input := existing_eq_ok.1 input
  have here := existing_eq_ok.1 here
  obtain ⟨relocation, only, same⟩ := List.map_eq_singleton_iff.1 facts
  obtain ⟨rfl, reaches, -⟩ := by simpa only [Prod.mk.injEq] using same
  have member : ⟨.functionIndexLeb, 4, 0, 0⟩ ∈ found.relocations := by
    rw [← Array.mem_toList_iff, only]
    exact List.mem_singleton.2 rfl
  exact ⟨program, module, place, found, _, copiesOut, input, here, rfl, member,
    (each 1 place module found _ input here member).1.2 (of_decide_eq_true reaches)⟩

/-- The inputs of `pair`, where the relocation of the call stands at the number of functions. -/
def strays : List (String × Bytes) :=
  pair.take 1 ++ [("stray.o",
    [0, 97, 115, 109, 1, 0, 0, 0, 1, 4, 1, 96, 0, 0, 3, 2, 1, 0, 10, 10, 1, 8, 0, 16, 128, 128,
      128, 128, 0, 11, 0, 17, 7, 108, 105, 110, 107, 105, 110, 103, 2, 8, 6, 1, 0, 0, 0, 1, 103,
      0, 16, 10, 114, 101, 108, 111, 99, 46, 67, 79, 68, 69, 2, 1, 0, 0, 0])]

/-- What they are linked to, where the call goes to the function of the other input. -/
def linkedStrays : Bytes :=
  [0, 97, 115, 109, 1, 0, 0, 0, 1, 135, 128, 128, 128, 0, 2, 96, 0, 0, 96, 0, 0, 3, 131, 128, 128,
   128, 0, 2, 0, 1, 4, 133, 128, 128, 128, 0, 1, 112, 1, 1, 1, 5, 131, 128, 128, 128, 0, 1, 0, 2,
   6, 136, 128, 128, 128, 0, 1, 127, 1, 65, 128, 128, 8, 11, 7, 138, 128, 128, 128, 0, 1, 6, 109,
   101, 109, 111, 114, 121, 2, 0, 10, 141, 128, 128, 128, 0, 2, 2, 0, 11, 8, 0, 16, 128, 128, 128,
   128, 0, 11]

/-- A link succeeds although there is a relocation of code that no copy takes. -/
theorem link_strays : link strays {} = .ok linkedStrays ∧
    (Program.ofInputs strays {} >>= (·.takers 1 .code)) =
      .ok [(⟨.functionIndexLeb, 0, 0, 0⟩, false, 0)] := by
  constructor <;> decide +kernel

end StaticLink
