import StaticLink.Program.Encoding
import StaticLink.Proofs.Program.IndexSpace
import StaticLink.Proofs.Steps

/-!
# The table of the linked module

The entries of the inputs' element segments follow one another in the table of the linked module,
in the order of the inputs.

* `ObjectModule.Fills`: an input fills a slot of its table with a function.
* `Program.entryPosition?_of_fills`: such a slot has an entry.
* `Program.exists_of_tableSlot`, `Program.tableSlot_range`: the numbers that slots have in the linked
  table.
* `Program.tableFunctions_getElem?`: what the linked table holds for an entry of an input.
* `Program.inputFunctionIndex_eq_ok`: the function that this is.
-/

namespace StaticLink

/-! ## The table of an input -/

/-- The function that the segment puts into `slot`. -/
def ElementSegment.at? (segment : ElementSegment) (slot : Nat) : Option UInt32 :=
  let start := segment.offset.toUInt32.toNat
  if start ≤ slot then segment.functions[slot - start]? else none

/-- The module fills `slot` with function `index`, and with no other. -/
def ObjectModule.Fills (module : ObjectModule) (slot : Nat) (index : UInt32) : Prop :=
  (∃ segment ∈ module.elementSegments.toList, segment.at? slot = some index) ∧
    ∀ segment ∈ module.elementSegments.toList,
      segment.at? slot = none ∨ segment.at? slot = some index

instance (module : ObjectModule) (slot : Nat) (index : UInt32) :
    Decidable (module.Fills slot index) :=
  inferInstanceAs (Decidable (_ ∧ _))

theorem ElementSegment.at?_eq_none_iff {segment : ElementSegment} {slot : Nat} :
    segment.at? slot = none ↔ ¬ (segment.offset.toUInt32.toNat ≤ slot ∧
      slot < segment.offset.toUInt32.toNat + segment.functions.length) := by
  unfold ElementSegment.at?
  dsimp only
  split
  · rw [List.getElem?_eq_none_iff]
    omega
  · simp [*]

theorem ElementSegment.at?_of_le {segment : ElementSegment} {slot : Nat}
    (first : segment.offset.toUInt32.toNat ≤ slot) :
    segment.at? slot = segment.functions[slot - segment.offset.toUInt32.toNat]? := by
  unfold ElementSegment.at?
  rw [if_pos first]

namespace Program

variable {program : Program} {owner : ModuleId} {module : ObjectModule}
  {slot position stored : Nat} {index : UInt32}

/-! ## Entries in the linked table -/

/-- A slot that is filled has an entry, which holds the function. -/
theorem entryPosition?_of_fills {segments : List ElementSegment}
    (any : ∃ segment ∈ segments, segment.at? slot = some index)
    (all : ∀ segment ∈ segments, segment.at? slot = none ∨ segment.at? slot = some index) :
    ∃ position, entryPosition? segments slot = some position ∧
      (segments.flatMap (·.functions))[position]? = some index := by
  induction segments with
  | nil =>
    obtain ⟨segment, member, -⟩ := any
    cases member
  | cons segment rest ih =>
    unfold entryPosition?
    rw [List.flatMap_cons]
    by_cases within : segment.offset.toUInt32.toNat ≤ slot ∧
        slot < segment.offset.toUInt32.toNat + segment.functions.length
    · refine ⟨slot - segment.offset.toUInt32.toNat, if_pos within, ?_⟩
      rw [List.getElem?_append_left (by omega), ← ElementSegment.at?_of_le within.1]
      rcases all segment List.mem_cons_self with none | here
      · exact absurd within (ElementSegment.at?_eq_none_iff.1 none)
      · exact here
    · -- The segment leaves the slot to those after it.
      have none : segment.at? slot = none := ElementSegment.at?_eq_none_iff.2 within
      have later : ∃ segment ∈ rest, segment.at? slot = some index := by
        obtain ⟨other, member, here⟩ := any
        rcases List.mem_cons.1 member with rfl | member
        · rw [none] at here
          cases here
        · exact ⟨other, member, here⟩
      obtain ⟨position, found, there⟩ := ih later fun other member =>
        all other (List.mem_cons_of_mem _ member)
      refine ⟨segment.functions.length + position, ?_, ?_⟩
      · rw [if_neg within, found]
        rfl
      · rw [List.getElem?_append_right (Nat.le_add_right _ _), Nat.add_sub_cancel_left]
        exact there

/-- An entry is one of those that the segments have. -/
theorem entryPosition?_lt {segments : List ElementSegment}
    (h : entryPosition? segments slot = some position) :
    position < (segments.flatMap (·.functions)).length := by
  induction segments generalizing position with
  | nil => cases h
  | cons segment rest ih =>
    unfold entryPosition? at h
    rw [List.flatMap_cons, List.length_append]
    dsimp only at h
    split at h
    · cases h
      omega
    · obtain ⟨later, found, rfl⟩ := Option.map_eq_some_iff.1 h
      have small := ih found
      omega

theorem tableSlot_eq (here : program.modules[owner]? = some module) (slot : Nat) :
    program.tableSlot owner slot = .ok ((entryPosition? module.elementSegments.toList slot).map
      (firstSlot + program.elementBase owner + ·)) :=
  bind_eq_ok.2 ⟨module, existing_eq_ok.2 here, rfl⟩

/-- The slot of the linked table for a slot that is filled. -/
theorem tableSlot_eq_ok (input : program.input owner = .ok module)
    (found : entryPosition? module.elementSegments.toList slot = some position) :
    program.tableSlot owner slot =
      .ok (some (firstSlot + (program.elementBase owner + position))) := by
  rw [tableSlot_eq (existing_eq_ok.1 input), found, Option.map_some, Nat.add_assoc]

/-- A slot with a number is one of an input, which has an entry for it. -/
theorem exists_of_tableSlot (h : program.tableSlot owner slot = .ok (some stored)) :
    ∃ module position, program.modules[owner]? = some module ∧
      entryPosition? module.elementSegments.toList slot = some position ∧
      position < module.elementCount ∧ stored = 1 + (program.elementBase owner + position) := by
  obtain ⟨module, input, same⟩ := return_eq_ok.1 h
  obtain ⟨position, found, rfl⟩ := Option.map_eq_some_iff.1 same
  exact ⟨module, position, existing_eq_ok.1 input, found, entryPosition?_lt found,
    Nat.add_assoc 1 _ position⟩

theorem tableSlot_range (h : program.tableSlot owner slot = .ok (some stored)) :
    1 ≤ stored ∧ stored ≤ program.elementCount := by
  obtain ⟨module, position, here, -, small, rfl⟩ := exists_of_tableSlot h
  have within := countBefore_add_le_countAll (·.elementCount) here
  unfold elementBase elementCount
  omega

/-- A table with an entry is written. -/
theorem elementSegmentCount_ne_zero (here : program.modules[owner]? = some module)
    (small : position < module.elementCount) : UInt32.ofNat program.elementSegmentCount ≠ 0 := by
  have counted := countBefore_add_le_countAll (·.elementCount) here
  have any : program.elementCount ≠ 0 := by
    unfold elementCount
    omega
  rw [elementSegmentCount, if_neg any]
  decide

/-- The entries of an input, each with the input. -/
theorem flatMap_map_functions (segments : List ElementSegment) (owner : ModuleId) :
    (segments.flatMap fun segment => segment.functions.map (owner, ·)) =
      (segments.flatMap (·.functions)).map (owner, ·) :=
  (List.map_flatMap ..).symm

/-- The linked table holds, for every entry of an input, the function that the input means. -/
theorem tableFunctions_getElem? {functions : List Nat}
    (h : program.tableFunctions = .ok functions) (here : program.modules[owner]? = some module)
    (entry : (module.elementSegments.toList.flatMap (·.functions))[position]? = some index) :
    ∃ stored, program.inputFunctionIndex owner index = .ok stored ∧
      functions[program.elementBase owner + position]? = some stored := by
  unfold tableFunctions at h
  obtain ⟨-, each⟩ := mapM_eq_ok h
  refine each (program.elementBase owner + position) (owner, index) ?_
  have small : position < module.elementCount := (List.getElem?_eq_some_iff.1 entry).1
  unfold elementBase
  rw [getElem?_flatMap_zipIdx (·.elementCount) ?_ here small]
  · dsimp only
    rw [flatMap_map_functions, List.getElem?_map, entry]
    rfl
  · intro other place
    dsimp only
    rw [flatMap_map_functions, List.length_map]
    rfl

theorem length_tableFunctions {functions : List Nat} (h : program.tableFunctions = .ok functions) :
    functions.length = program.elementCount := by
  unfold tableFunctions at h
  obtain ⟨size, -⟩ := mapM_eq_ok h
  rw [size]
  refine length_flatMap_zipIdx (·.elementCount) program.modules ?_
  intro other place
  dsimp only
  rw [flatMap_map_functions, List.length_map]
  rfl

/-- The function that an input knows by an index: its own, or what the symbol of an import has. -/
theorem inputFunctionIndex_eq_ok (input : program.input owner = .ok module)
    (h : program.inputFunctionIndex owner index = .ok stored) :
    (module.functionImports.size ≤ index.toNat ∧ stored < wordLimit ∧
      stored = program.functionBase owner + (index.toNat - module.functionImports.size)) ∨
    (index.toNat < module.functionImports.size ∧ ∃ last,
      module.importSymbol? index = some last ∧ program.functionIndex last = .ok stored) := by
  unfold inputFunctionIndex at h
  rw [input] at h
  obtain ⟨_, same, h⟩ := bind_eq_ok.1 h
  cases same
  dsimp only at h
  split at h
  · next own =>
    obtain ⟨small, rfl⟩ := inWord_eq_ok.1 h
    exact .inl ⟨own, small, rfl⟩
  · next small =>
    obtain ⟨found, here, h⟩ := bind_eq_ok.1 h
    split at h
    · next last named =>
      refine .inr ⟨Nat.lt_of_not_le small, last, ?_, h⟩
      unfold ObjectModule.importSymbol?
      rw [existing_eq_ok.1 here]
      exact named
    · cases h

end Program

end StaticLink
