import Mathlib.Data.List.Pairwise
import StaticLink.Proofs.Output.Sections
import StaticLink.Proofs.Program.Sums
import StaticLink.Proofs.Relocation.Operand

/-!
# The slots of the linked table

Each input fills slots of a table of its own, and the linked module has one table for all of them. A
slot is found there by going through the segments of its input, while the table is written by going
through the segments of all inputs. Where no two segments of an input fill one slot, the two agree.

* `ElementSegment.Covers`, `ObjectModule.Covers`: a slot is filled.
* `ObjectModule.SegmentsApart`: no slot is filled twice.
* `Program.NumbersTable`: the slots that are filled are numbered from one on, each by one number.
* `Program.FillsTable`: the table of the linked module holds at each number what the number is of.
* `Program.table_slots`: both hold for all inputs whose segments are apart.
-/

namespace StaticLink

/-! ## Segments that are apart -/

/-- The segment fills the slot. Its offset is read as a number without a sign. -/
def ElementSegment.Covers (segment : ElementSegment) (slot : Nat) : Prop :=
  segment.offset.toUInt32.toNat ≤ slot ∧
    slot < segment.offset.toUInt32.toNat + segment.functions.length

instance (segment : ElementSegment) (slot : Nat) : Decidable (segment.Covers slot) :=
  inferInstanceAs (Decidable (_ ∧ _))

/-- Some segment of the module fills the slot. -/
def ObjectModule.Covers (module : ObjectModule) (slot : Nat) : Prop :=
  ∃ segment ∈ module.elementSegments.toList, segment.Covers slot

/-- The segments of the module fill slots that exist, and no slot twice. -/
structure ObjectModule.SegmentsApart (module : ObjectModule) : Prop where
  inside : ∀ segment ∈ module.elementSegments.toList,
    segment.offset.toUInt32.toNat + segment.functions.length ≤ wordLimit
  apart : module.elementSegments.toList.Pairwise fun one other =>
    ∀ slot, one.Covers slot → ¬ other.Covers slot

theorem ElementSegment.at?_eq_some_iff {segment : ElementSegment} {slot : Nat} {index : UInt32} :
    segment.at? slot = some index ↔ segment.offset.toUInt32.toNat ≤ slot ∧
      segment.functions[slot - segment.offset.toUInt32.toNat]? = some index := by
  unfold ElementSegment.at?
  dsimp only
  split
  · next first => simp [first]
  · next before => simp [before]

/-- A slot that is filled is filled with a function. -/
theorem ElementSegment.Covers.exists_at? {segment : ElementSegment} {slot : Nat}
    (covers : segment.Covers slot) : ∃ index, segment.at? slot = some index := by
  obtain ⟨first, last⟩ := covers
  have small : slot - segment.offset.toUInt32.toNat < segment.functions.length := by omega
  exact ⟨_, at?_eq_some_iff.2 ⟨first, List.getElem?_eq_getElem small⟩⟩

theorem ElementSegment.covers_of_at? {segment : ElementSegment} {slot : Nat} {index : UInt32}
    (here : segment.at? slot = some index) : segment.Covers slot := by
  by_contra beside
  rw [ElementSegment.at?_eq_none_iff.2 beside] at here
  cases here

/-- Segments are apart if each two of them come one behind the other. -/
theorem ObjectModule.segmentsApart_of_bounds {module : ObjectModule}
    (inside : ∀ segment ∈ module.elementSegments.toList,
      segment.offset.toUInt32.toNat + segment.functions.length ≤ wordLimit)
    (behind : module.elementSegments.toList.Pairwise fun one other =>
      one.offset.toUInt32.toNat + one.functions.length ≤ other.offset.toUInt32.toNat ∨
        other.offset.toUInt32.toNat + other.functions.length ≤ one.offset.toUInt32.toNat) :
    module.SegmentsApart where
  inside := inside
  apart := by
    refine behind.imp fun {one other} behind slot here there => ?_
    obtain ⟨first, last⟩ := here
    obtain ⟨first', last'⟩ := there
    omega

/-- Where no slot is filled twice, a slot is filled exactly if it is filled with one function. -/
theorem ObjectModule.SegmentsApart.covers_iff {module : ObjectModule} {slot : Nat}
    (segments : module.SegmentsApart) : module.Covers slot ↔ ∃ index, module.Fills slot index := by
  constructor
  · rintro ⟨segment, member, covers⟩
    obtain ⟨index, here⟩ := covers.exists_at?
    refine ⟨index, ⟨segment, member, here⟩, fun other among => ?_⟩
    rcases there : other.at? slot with _ | index'
    · exact .inl rfl
    · -- A segment that fills the slot too is the same one.
      by_cases same : segment = other
      · subst same
        exact .inr (there.symm.trans here)
      · have symmetric : Std.Symm fun one other : ElementSegment =>
            ∀ slot, one.Covers slot → ¬ other.Covers slot :=
          ⟨fun one other apart slot first second => apart slot second first⟩
        have apart := segments.apart.forall member among same slot covers
        exact absurd (ElementSegment.covers_of_at? there) apart
  · rintro ⟨index, ⟨segment, member, here⟩, -⟩
    exact ⟨segment, member, ElementSegment.covers_of_at? here⟩

namespace Program

variable {program : Program} {owner other : ModuleId} {module : ObjectModule}
  {segments : List ElementSegment} {slot slot' position stored : Nat} {index : UInt32}

/-! ## The entry of a slot -/

theorem entryPosition?_cons_of_covers {segment : ElementSegment} {rest : List ElementSegment}
    (covers : segment.Covers slot) :
    entryPosition? (segment :: rest) slot = some (slot - segment.offset.toUInt32.toNat) :=
  if_pos covers

theorem entryPosition?_cons_of_not_covers {segment : ElementSegment} {rest : List ElementSegment}
    (beside : ¬ segment.Covers slot) : entryPosition? (segment :: rest) slot =
      (entryPosition? rest slot).map (segment.functions.length + ·) :=
  if_neg beside

/-- A slot has an entry exactly if some segment fills it. -/
theorem exists_entryPosition?_iff : (∃ position, entryPosition? segments slot = some position) ↔
    ∃ segment ∈ segments, segment.Covers slot := by
  induction segments with
  | nil => simp [entryPosition?]
  | cons segment rest ih =>
    by_cases covers : segment.Covers slot
    · rw [entryPosition?_cons_of_covers covers]
      simp [covers]
    · rw [entryPosition?_cons_of_not_covers covers]
      simp [covers, ← ih]

/-- No two slots have one entry. -/
theorem entryPosition?_inj (one : entryPosition? segments slot = some position)
    (two : entryPosition? segments slot' = some position) : slot = slot' := by
  induction segments generalizing position with
  | nil => cases one
  | cons segment rest ih =>
    by_cases covers : segment.Covers slot
    · have ⟨first, last⟩ := covers
      rw [entryPosition?_cons_of_covers covers] at one
      by_cases covers' : segment.Covers slot'
      · have ⟨first', _⟩ := covers'
        rw [entryPosition?_cons_of_covers covers'] at two
        have same := Option.some.inj (one.trans two.symm)
        omega
      · -- The entries of the other segments come behind those of this one.
        rw [entryPosition?_cons_of_not_covers covers'] at two
        obtain ⟨later, -, behind⟩ := Option.map_eq_some_iff.1 two
        have here := Option.some.inj one
        omega
    · rw [entryPosition?_cons_of_not_covers covers] at one
      obtain ⟨later, found, behind⟩ := Option.map_eq_some_iff.1 one
      by_cases covers' : segment.Covers slot'
      · have ⟨first', last'⟩ := covers'
        rw [entryPosition?_cons_of_covers covers'] at two
        have here := Option.some.inj two
        omega
      · rw [entryPosition?_cons_of_not_covers covers'] at two
        obtain ⟨later', found', behind'⟩ := Option.map_eq_some_iff.1 two
        have same : later' = later := by omega
        subst same
        exact ih found found'

/-- Where no slot is filled twice, every entry is that of a slot. -/
theorem exists_slot_of_position
    (apart : segments.Pairwise fun one other => ∀ slot, one.Covers slot → ¬ other.Covers slot)
    (small : position < (segments.flatMap (·.functions)).length) :
    ∃ slot, entryPosition? segments slot = some position := by
  induction segments generalizing position with
  | nil => cases small
  | cons segment rest ih =>
    obtain ⟨first, others⟩ := List.pairwise_cons.1 apart
    rw [List.flatMap_cons, List.length_append] at small
    rcases Nat.lt_or_ge position segment.functions.length with inside | behind
    · refine ⟨segment.offset.toUInt32.toNat + position, ?_⟩
      have covers : segment.Covers (segment.offset.toUInt32.toNat + position) :=
        ⟨Nat.le_add_right _ _, Nat.add_lt_add_left inside _⟩
      rw [entryPosition?_cons_of_covers covers, Nat.add_sub_cancel_left]
    · have later : position - segment.functions.length <
          (rest.flatMap (·.functions)).length := by omega
      obtain ⟨slot, found⟩ := ih others later
      obtain ⟨later, member, covers⟩ := exists_entryPosition?_iff.1 ⟨_, found⟩
      refine ⟨slot, ?_⟩
      have beside : ¬ segment.Covers slot := fun also => first later member slot also covers
      rw [entryPosition?_cons_of_not_covers beside, found, Option.map_some]
      congr 1
      omega

/-! ## Numbers of slots -/

/-- The slots that inputs fill are numbered in the linked table, from the first slot that is filled
there on. Slot zero is the number of none of them, and no pointer has it. -/
structure NumbersTable (program : Program) : Prop where
  numbered_iff : ∀ (owner : ModuleId) (module : ObjectModule) (slot : Nat),
    program.modules[owner]? = some module →
    ((∃ stored, program.tableSlot owner slot = .ok (some stored)) ↔ module.Covers slot)
  unnumbered_iff : ∀ (owner : ModuleId) (module : ObjectModule) (slot : Nat),
    program.modules[owner]? = some module →
    (program.tableSlot owner slot = .ok none ↔ ¬ module.Covers slot)
  range : ∀ (owner : ModuleId) (slot stored : Nat),
    program.tableSlot owner slot = .ok (some stored) → 1 ≤ stored ∧ stored ≤ program.elementCount
  injective : ∀ (owner other : ModuleId) (slot slot' stored : Nat),
    program.tableSlot owner slot = .ok (some stored) →
    program.tableSlot other slot' = .ok (some stored) → owner = other ∧ slot = slot'
  surjective : ∀ stored : Nat, 1 ≤ stored → stored ≤ program.elementCount →
    ∃ owner slot, slot < wordLimit ∧ program.tableSlot owner slot = .ok (some stored)
  /-- A pointer that is relocated has such a number, also in as many bits as it is written in. -/
  pointers : ∀ (owner : ModuleId) (relocation : Relocation) (current value : Int),
    relocation.kind.isTableIndex = true →
    program.operandValue owner relocation current = .ok value →
    ∃ stored : Nat, value = stored ∧ 1 ≤ stored ∧ stored ≤ program.elementCount ∧
      relocation.kind.encoding.reduce value ≠ 0

theorem tableSlot_inj (one : program.tableSlot owner slot = .ok (some stored))
    (two : program.tableSlot other slot' = .ok (some stored)) : owner = other ∧ slot = slot' := by
  obtain ⟨module, position, here, found, small, rfl⟩ := exists_of_tableSlot one
  obtain ⟨module', position', here', found', small', same⟩ := exists_of_tableSlot two
  obtain ⟨rfl, rfl⟩ := countBefore_add_inj (·.elementCount) here here' small small'
    (Nat.add_left_cancel same)
  cases here.symm.trans here'
  exact ⟨rfl, entryPosition?_inj found found'⟩

theorem exists_tableSlot (apart : ∀ module ∈ program.modules, module.SegmentsApart)
    (low : 1 ≤ stored) (high : stored ≤ program.elementCount) :
    ∃ owner slot, slot < wordLimit ∧ program.tableSlot owner slot = .ok (some stored) := by
  have small : stored - 1 < countAll (·.elementCount) program.modules := by
    unfold elementCount at high
    omega
  obtain ⟨owner, module, position, here, inside, same⟩ := exists_owner_of_lt small
  have segments := apart module (List.mem_of_getElem? here)
  obtain ⟨slot, found⟩ := exists_slot_of_position segments.apart inside
  obtain ⟨segment, member, -, last⟩ := exists_entryPosition?_iff.1 ⟨_, found⟩
  refine ⟨owner, slot, Nat.lt_of_lt_of_le last (segments.inside segment member), ?_⟩
  have number : stored = 1 + program.elementBase owner + position := by
    unfold elementBase
    omega
  rw [tableSlot_eq here, found, Option.map_some, number]
  rfl

/-- A number of a slot is not zero in the bits of an operand. -/
theorem reduce_ne_zero {encoding : Relocation.Encoding} (low : 1 ≤ stored)
    (high : stored < wordLimit) : encoding.reduce stored ≠ 0 := by
  intro zero
  have congruent := encoding.reduce_emod stored
  rw [zero, Int.zero_emod] at congruent
  have small : stored < encoding.modulus := by
    refine Nat.lt_of_lt_of_le high ?_
    cases encoding <;> decide
  rw [Int.emod_eq_of_lt (by omega) (by omega)] at congruent
  omega

/-- No operand is both an address and a slot. -/
theorem isMemoryAddress_of_isTableIndex {kind : Relocation.Kind}
    (pointer : kind.isTableIndex = true) : kind.isMemoryAddress = false := by
  cases kind <;> first | rfl | cases pointer

theorem numbersTable (apart : ∀ module ∈ program.modules, module.SegmentsApart)
    (few : program.elementCount < wordLimit - 1) : program.NumbersTable where
  numbered_iff := by
    intro owner module slot here
    rw [tableSlot_eq here, ObjectModule.Covers, ← exists_entryPosition?_iff]
    simp
  unnumbered_iff := by
    intro owner module slot here
    rw [tableSlot_eq here, ObjectModule.Covers, ← exists_entryPosition?_iff]
    simp [Option.eq_none_iff_forall_ne_some]
  range := fun _ _ _ => tableSlot_range
  injective := fun _ _ _ _ _ => tableSlot_inj
  surjective := fun _ => exists_tableSlot apart
  pointers := by
    intro owner relocation current value pointer h
    cases demands_of_operandValue h with
    | @tableIndex _ _ stored _ _ _ _ here =>
      obtain ⟨low, high⟩ := tableSlot_range here
      exact ⟨stored, rfl, low, high, reduce_ne_zero low (by omega)⟩
    | typeIndex kind | functionIndex kind | tableNumber kind =>
      rw [kind] at pointer
      cases pointer
    | globalIndex kind =>
      rcases kind with kind | kind <;> rw [kind] at pointer <;> cases pointer
    | memoryAddress kind =>
      rw [isMemoryAddress_of_isTableIndex pointer] at kind
      cases kind

/-! ## The linked table -/

/-- The table of a linked module with these sections. -/
structure FillsTable (program : Program) (contents : SectionId → Option Bytes) : Prop where
  /-- There is one table, with a slot for each entry and slot zero. -/
  size : ∃ slots : UInt32, slots.toNat = program.elementCount + 1 ∧
    contents .tables = some (Leb128.ofUInt32 1 ++
      ({ initial := slots, maximum := some slots, shared := false } : Limits).encodeTable)
  /-- If there are any entries, then one segment has all of them, from slot one on. The entry for
  each number is the function in the slot that has the number. -/
  entries : ∃ functions : List Nat, functions.length = program.elementCount ∧
    contents .elements = (if functions = [] then none else some (Leb128.ofUInt32 1 ++
      (segmentHeader 1 ++ encodeNat functions.length ++ functions.flatMap encodeNat))) ∧
    ∀ (owner : ModuleId) (module : ObjectModule) (slot stored : Nat) (index : UInt32),
      program.modules[owner]? = some module → module.Fills slot index →
      program.tableSlot owner slot = .ok (some stored) →
      ∃ function, program.inputFunctionIndex owner index = .ok function ∧
        functions[stored - 1]? = some function

variable {interface : Interface} {contents : SectionId → Option Bytes} {output : Bytes}

theorem Written.table_size (written : program.Written interface contents output)
    (few : program.elementCount < wordLimit - 1) :
    ∃ slots : UInt32, slots.toNat = program.elementCount + 1 ∧
      contents .tables = some (Leb128.ofUInt32 1 ++
        ({ initial := slots, maximum := some slots, shared := false } : Limits).encodeTable) := by
  refine ⟨UInt32.ofNat (firstSlot + program.elementCount), ?_, ?_⟩
  · have small : firstSlot + program.elementCount < wordLimit := by
      unfold firstSlot
      omega
    rw [UInt32.toNat_ofNat_of_lt' small]
    exact Nat.add_comm 1 program.elementCount
  · rcases vectorContents_eq_ok (written.made .tables) with ⟨none, -⟩ | ⟨-, bytes, ⟨⟩, made⟩
    · cases none
    · exact made

theorem tableFunctions_of_elementCount (empty : program.elementCount = 0) :
    program.tableFunctions = .ok [] := by
  have none : (program.modules.zipIdx.flatMap fun place =>
      place.1.elementSegments.toList.flatMap fun segment =>
        segment.functions.map (place.2, ·)) = [] := by
    refine List.eq_nil_of_length_eq_zero (Eq.trans ?_ empty)
    refine length_flatMap_zipIdx (·.elementCount) program.modules fun module owner => ?_
    dsimp only
    rw [flatMap_map_functions, List.length_map]
    rfl
  exact congrArg
    (List.mapM fun entry : ModuleId × UInt32 => program.inputFunctionIndex entry.1 entry.2) none

theorem Written.table_entries (written : program.Written interface contents output) :
    ∃ functions, program.tableFunctions = .ok functions ∧
      contents .elements = (if functions = [] then none else some (Leb128.ofUInt32 1 ++
        (segmentHeader 1 ++ encodeNat functions.length ++ functions.flatMap encodeNat))) := by
  have made : vectorContents (.ofNat program.elementSegmentCount) program.elementEntries =
      .ok (contents .elements) := written.made .elements
  unfold elementSegmentCount at made
  by_cases empty : program.elementCount = 0
  · rw [if_pos empty] at made
    exact ⟨[], tableFunctions_of_elementCount empty, (Except.ok.inj made).symm⟩
  · rw [if_neg empty] at made
    rcases vectorContents_eq_ok made with ⟨none, -⟩ | ⟨-, bytes, produced, same⟩
    · cases none
    · obtain ⟨functions, looked, rfl⟩ := return_eq_ok.1 produced
      have size := length_tableFunctions looked
      have some : functions ≠ [] := by
        rintro rfl
        exact empty size.symm
      refine ⟨functions, looked, ?_⟩
      rw [if_neg some, same, size]
      rfl

/-- A linked module has such a table. -/
theorem Written.fillsTable (written : program.Written interface contents output)
    (few : program.elementCount < wordLimit - 1) : program.FillsTable contents where
  size := written.table_size few
  entries := by
    obtain ⟨functions, looked, same⟩ := written.table_entries
    refine ⟨functions, length_tableFunctions looked, same, ?_⟩
    intro owner module slot stored index here fills numbered
    obtain ⟨position, found, entry⟩ := entryPosition?_of_fills fills.1 fills.2
    obtain ⟨function, known, listed⟩ := tableFunctions_getElem? looked here entry
    refine ⟨function, known, ?_⟩
    rw [tableSlot_eq here, found, Option.map_some, Except.ok.injEq, Option.some.injEq] at numbered
    have place : stored - 1 = program.elementBase owner + position := by
      unfold firstSlot at numbered
      omega
    rw [place, listed]

/-- Where no input fills a slot of its table twice, the slots that inputs fill are numbered from one
on, and the linked table has the function of each slot at its number. -/
theorem table_slots (program : Program)
    (apart : ∀ module ∈ program.modules, module.SegmentsApart)
    (few : program.elementCount < wordLimit - 1) :
    program.NumbersTable ∧
    (∀ module ∈ program.modules, ∀ slot,
      module.Covers slot ↔ ∃ index, module.Fills slot index) ∧
    ∀ (inputs : List (String × Bytes)) (options : Options) (output : Bytes),
      ofInputs inputs options = .ok program → link inputs options = .ok output →
      ∃ contents, output = moduleBytes contents ∧ program.FillsTable contents := by
  refine ⟨numbersTable apart few, fun module member _ => (apart module member).covers_iff, ?_⟩
  intro inputs options output decided linked
  obtain ⟨_, interface, same, -, written⟩ := exists_written_of_link linked
  cases decided.symm.trans same
  exact ⟨_, written.bytes, written.fillsTable few⟩

/-- An input whose segments are in no order, leave slots between them and reach to the last slot that
there is, where its function points to, and an input with two segments. -/
def scattered : List (String × Bytes) :=
  [("scattered.o",
      [0, 97, 115, 109, 1, 0, 0, 0, 1, 4, 1, 96, 0, 0, 3, 3, 2, 0, 0, 9, 21, 3, 0, 65, 126, 11, 2,
       0, 1, 0, 65, 7, 11, 1, 1, 0, 65, 3, 11, 2, 1, 0, 10, 14, 2, 9, 0, 65, 255, 255, 255, 255,
       127, 26, 11, 2, 0, 11, 0, 22, 7, 108, 105, 110, 107, 105, 110, 103, 2, 8, 11, 2, 0, 0, 0, 1,
       97, 0, 0, 1, 1, 98, 0, 16, 10, 114, 101, 108, 111, 99, 46, 67, 79, 68, 69, 3, 1, 1, 4, 1]),
   ("plain.o",
      [0, 97, 115, 109, 1, 0, 0, 0, 1, 4, 1, 96, 0, 0, 3, 2, 1, 0, 9, 13, 2, 0, 65, 5, 11, 1, 0, 0,
       65, 0, 11, 1, 0, 10, 4, 1, 2, 0, 11, 0, 17, 7, 108, 105, 110, 107, 105, 110, 103, 2, 8, 6,
       1, 0, 0, 0, 1, 99])]

/-- Whether the segments of all inputs come one behind the other. -/
def segmentsBehind (program : Program) : Bool :=
  program.modules.all fun module =>
    decide (∀ segment ∈ module.elementSegments.toList,
      segment.offset.toUInt32.toNat + segment.functions.length ≤ wordLimit) &&
    decide (module.elementSegments.toList.Pairwise fun one other =>
      one.offset.toUInt32.toNat + one.functions.length ≤ other.offset.toUInt32.toNat ∨
        other.offset.toUInt32.toNat + other.functions.length ≤ one.offset.toUInt32.toNat)

/-- The first input fills the last slot that there is, and its pointer there becomes the number two.
The second input fills slot zero, which has the last number. -/
theorem table_slots_scattered : ∃ program output contents, ofInputs scattered {} = .ok program ∧
    link scattered {} = .ok output ∧ program.NumbersTable ∧ output = moduleBytes contents ∧
    program.FillsTable contents ∧ program.elementCount = 7 ∧
    program.tableSlot 0 4294967295 = .ok (some 2) ∧ program.tableSlot 0 4 = .ok (some 5) ∧
    program.tableSlot 0 5 = .ok none ∧ program.tableSlot 1 0 = .ok (some 7) ∧
    program.operandValue 0 ⟨.tableIndexSleb, 4, 1, 0⟩ (-1) = .ok 2 := by
  have accepted : (link scattered {}).isOk = true := by decide +kernel
  have behind : (ofInputs scattered {}).map (fun program =>
      (program.segmentsBehind, program.elementCount)) = .ok (true, 7) := by decide +kernel
  have last : ofInputs scattered {} >>= (·.tableSlot 0 4294967295) = .ok (some 2) := by
    decide +kernel
  have inner : ofInputs scattered {} >>= (·.tableSlot 0 4) = .ok (some 5) := by decide +kernel
  have gap : ofInputs scattered {} >>= (·.tableSlot 0 5) = .ok none := by decide +kernel
  have zero : ofInputs scattered {} >>= (·.tableSlot 1 0) = .ok (some 7) := by decide +kernel
  have pointer : ofInputs scattered {} >>= (·.operandValue 0 ⟨.tableIndexSleb, 4, 1, 0⟩ (-1)) =
      .ok 2 := by decide +kernel
  rcases linked : link scattered {} with error | output
  · rw [linked] at accepted
    cases accepted
  rcases decided : ofInputs scattered {} with error | program
  · rw [decided] at behind
    cases behind
  rw [decided] at behind last inner gap zero pointer
  obtain ⟨behind, count⟩ := Prod.mk.inj (Except.ok.inj behind)
  have apart : ∀ module ∈ program.modules, module.SegmentsApart := by
    intro module member
    have bounds := List.all_eq_true.1 behind module member
    rw [Bool.and_eq_true, decide_eq_true_iff, decide_eq_true_iff] at bounds
    exact ObjectModule.segmentsApart_of_bounds bounds.1 bounds.2
  obtain ⟨numbers, -, written⟩ := table_slots program apart (by rw [count]; decide)
  obtain ⟨contents, bytes, fills⟩ := written scattered {} output decided linked
  exact ⟨program, output, contents, rfl, rfl, numbers, bytes, fills, count, last, inner, gap, zero,
    pointer⟩

end Program

end StaticLink
