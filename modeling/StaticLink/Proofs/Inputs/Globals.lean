import Mathlib.Data.List.Forall2
import StaticLink.Proofs.Inputs.Sizes
import StaticLink.Proofs.Scan.Entries

/-!
# The globals of an input

The globals of an input are copied as they stand in its file, and what was read of them there is
read of the copy too, provided that there is one section for globals and no relocation changes it.

* `Transcript.SingleGlobals`, `Transcript.KeepsGlobals`: the two conditions on a file.
* `ObjectModule.HasGlobals`: the globals of an input, each with its bytes in the file.
* `Program.exists_globals`: what is copied of all inputs are the bytes of their globals.
-/

namespace StaticLink

/-- The section that a relocation is about, by its position. -/
def Event.target? : Event → Option UInt32
  | relocation target _ => some target
  | _ => none

namespace Transcript

/-- The openings of the sections of a file. -/
def headers (transcript : Transcript) : List SectionHeader :=
  transcript.events.filterMap Event.header?

/-- No two sections but custom ones have the same id. -/
def SingleSections (transcript : Transcript) : Prop :=
  ((transcript.headers.map (·.id)).filter (· != .custom)).Nodup

instance (transcript : Transcript) : Decidable transcript.SingleSections :=
  inferInstanceAs (Decidable (List.Nodup _))

/-- There is no more than one section for globals. -/
def SingleGlobals (transcript : Transcript) : Prop :=
  (transcript.headers.map (·.id)).count .globals ≤ 1

instance (transcript : Transcript) : Decidable transcript.SingleGlobals :=
  inferInstanceAs (Decidable (_ ≤ _))

theorem SingleSections.singleGlobals {transcript : Transcript}
    (single : transcript.SingleSections) : transcript.SingleGlobals := by
  have once := List.nodup_iff_count_le_one.1 single .globals
  rw [List.count_filter rfl] at once
  exact once

/-- No relocation is about a section for globals. -/
def KeepsGlobals (transcript : Transcript) : Prop :=
  ∀ target ∈ transcript.events.filterMap Event.target?,
    (transcript.headers[target.toNat]?).map (·.id) ≠ some .globals

-- The list is gone through, and not all words of 32 bits.
instance (transcript : Transcript) : Decidable transcript.KeepsGlobals :=
  List.decidableBAll _ _

end Transcript

open Scanner (IsGlobal)

/-! ## Reading globals -/

namespace Reader

/-- Where a reader stands that has taken some bytes. -/
theorem Reads.next {α : Type} {reader : Reader α} {taken : Bytes} {value other : α}
    {cursor next : Cursor} (reads : Reads reader taken value)
    (h : reader cursor = .ok other next) (before : cursor.rest = taken ++ next.rest) :
    next.position = cursor.position + taken.length := by
  have again := reads cursor.position next.rest
  rw [← before] at again
  have same := (EStateM.Result.ok.inj (h.symm.trans again)).2
  rw [same]

end Reader

namespace Scanner

/-- Globals that were read from a row of bytes, each of which is one of them. -/
theorem globals_of_timesFrom {count : Nat} {first : UInt32} {before after : Scan}
    (h : timesFrom (fun i => do
      let type ← Reader.globalType
      Reader.skipConstant
      emit (.global ((← get).globalImports + i) type)) count first before = .ok () after) :
    ∃ (globals : List (GlobalType × Bytes)) (noted : List Event),
      (∀ found ∈ globals, IsGlobal found.1 found.2) ∧
      before.cursor.rest = globals.flatMap (·.2) ++ after.cursor.rest ∧
      after.cursor.position = before.cursor.position + (globals.flatMap (·.2)).length ∧
      after.events.toList = before.events.toList ++ noted ∧
      noted.filterMap Event.globalType? = globals.map (·.1) := by
  induction count generalizing first before with
  | zero =>
    cases h
    exact ⟨[], [], by simp, rfl, rfl, (List.append_nil _).symm, rfl⟩
  | succ count ih =>
    obtain ⟨⟨⟩, middle, one, h⟩ := state_bind_eq_ok.1 h
    obtain ⟨globals, noted, each, rest, position, events, types⟩ := ih h
    obtain ⟨type, _, lifted, one⟩ := state_bind_eq_ok.1 one
    obtain ⟨typed, typing, rfl⟩ := read_eq_ok.1 lifted
    obtain ⟨⟨⟩, _, lifted, one⟩ := state_bind_eq_ok.1 one
    obtain ⟨skipped, skipping, rfl⟩ := read_eq_ok.1 lifted
    obtain ⟨_, _, got, one⟩ := state_bind_eq_ok.1 one
    cases got
    cases one
    obtain ⟨taken, ahead, reads⟩ := Reader.takes_globalType _ _ _ typing
    obtain ⟨more, ahead', reads'⟩ := Reader.takes_skipConstant _ _ _ skipping
    have place := reads.next typing ahead
    have place' := reads'.next skipping ahead'
    refine ⟨(type, taken ++ more) :: globals,
      .global (before.globalImports + first) type :: noted, ?_, ?_, ?_, ?_, ?_⟩
    · exact List.forall_mem_cons.2 ⟨⟨taken, more, rfl, reads, reads'⟩, each⟩
    · rw [ahead, ahead', List.flatMap_cons, List.append_assoc, List.append_assoc]
      exact congrArg (taken ++ ·) (congrArg (more ++ ·) rest)
    · dsimp only at position place'
      rw [position, place', place, List.flatMap_cons, List.length_append, List.length_append]
      omega
    · rw [events, Array.toList_push]
      exact List.append_assoc _ _ _
    · rw [List.map_cons, ← types]
      rfl

end Scanner

/-! ## Sections -/

variable {file : Bytes} {header : SectionHeader} {contents events : List Event}
  {sections : List (SectionHeader × List Event)}

/-- A section for globals is a row of globals. -/
theorem IsSection.globals (section' : IsSection file header contents)
    (id : header.id = .globals) :
    ∃ globals : List (GlobalType × Bytes), (∀ found ∈ globals, IsGlobal found.1 found.2) ∧
      contents.filterMap Event.globalType? = globals.map (·.1) ∧
      file.slice? header.payload = some (globals.flatMap (·.2)) := by
  obtain ⟨before, after, inFile, start, read, events, stop⟩ := section'
  have vector : header.id.isVector = true := by
    rw [id]
    rfl
  rw [Scanner.sectionEntries_of_isVector vector, id] at read
  obtain ⟨globals, noted, each, rest, position, events', types⟩ :=
    Scanner.globals_of_timesFrom read
  rw [events, List.append_cancel_left_eq] at events'
  refine ⟨globals, each, ?_, ?_⟩
  · rw [events', types]
  · have ahead : file.drop header.payload.start = globals.flatMap (·.2) ++ after.cursor.rest := by
      rw [← start, ← inFile.2, rest]
    have ends : header.payload.start + (globals.flatMap (·.2)).length = header.payload.stop := by
      rw [← start, ← position, stop]
    have slice := Bytes.slice?_of_drop ahead
    rw [ends] at slice
    exact slice

/-- The events of a kind are those of the sections of this kind. -/
theorem globalTypes_of_other (section' : IsSection file header contents)
    (other : header.id ≠ .globals) : contents.filterMap Event.globalType? = [] := by
  refine List.filterMap_eq_nil_iff.2 fun event member => ?_
  have home := section'.home event member
  cases event with
  | global index type => exact absurd (Option.some.inj home).symm other
  | _ => rfl

theorem globalTypes_eventsOf (sections : List (SectionHeader × List Event)) :
    (eventsOf sections).filterMap Event.globalType? =
      sections.flatMap fun piece => piece.2.filterMap Event.globalType? := by
  unfold eventsOf
  rw [List.filterMap_flatMap]
  rfl

theorem headers_eventsOf (each : ∀ piece ∈ sections, IsSection file piece.1 piece.2) :
    (eventsOf sections).filterMap Event.header? = sections.map (·.1) := by
  induction sections with
  | nil => rfl
  | cons piece sections ih =>
    obtain ⟨one, others⟩ := List.forall_mem_cons.1 each
    have none : piece.2.filterMap Event.header? = [] := by
      refine List.filterMap_eq_nil_iff.2 fun event member => ?_
      have home := one.home event member
      cases event with
      | opening header => cases home
      | _ => rfl
    have here : (eventsOf (piece :: sections)).filterMap Event.header? =
        piece.1 :: (piece.2.filterMap Event.header? ++
          (eventsOf sections).filterMap Event.header?) := by
      unfold eventsOf
      rw [List.flatMap_cons, List.filterMap_append]
      rfl
    rw [here, none, ih others, List.nil_append, List.map_cons]

theorem globalTypes_of_count_eq_zero (each : ∀ piece ∈ sections, IsSection file piece.1 piece.2)
    (none : (sections.map (·.1.id)).count .globals = 0) :
    (eventsOf sections).filterMap Event.globalType? = [] := by
  rw [globalTypes_eventsOf]
  refine List.flatMap_eq_nil_iff.2 fun piece member => ?_
  refine globalTypes_of_other (each piece member) fun same => ?_
  refine List.count_eq_zero.1 none ?_
  rw [← same]
  exact List.mem_map_of_mem member

/-- All globals are in the one section for globals. -/
theorem globalTypes_of_single (each : ∀ piece ∈ sections, IsSection file piece.1 piece.2)
    (single : (sections.map (·.1.id)).count .globals ≤ 1)
    (member : (header, contents) ∈ sections) (id : header.id = .globals) :
    (eventsOf sections).filterMap Event.globalType? = contents.filterMap Event.globalType? := by
  obtain ⟨earlier, later, rfl⟩ := List.append_of_mem member
  rw [List.map_append, List.map_cons, List.count_append, id, List.count_cons_self] at single
  have before := globalTypes_of_count_eq_zero
    (fun piece member => each piece (List.mem_append_left _ member)) (by omega)
  have behind := globalTypes_of_count_eq_zero
    (fun piece member => each piece (List.mem_append_right _ (List.mem_cons_of_mem _ member)))
    (by omega)
  rw [globalTypes_eventsOf] at before behind ⊢
  rw [List.flatMap_append, List.flatMap_cons, before, behind, List.nil_append, List.append_nil]

/-! ## Inputs -/

namespace ObjectModule

variable {module : ObjectModule} {found : Section}

theorem header_of_section? (mirrors : module.Mirrors events) {id : SectionId}
    (first : module.section? id = some found) : found.header.id = id ∧
      ∃ i : Nat, module.sections[i]? = some found ∧
        (events.filterMap Event.header?)[i]? = some found.header := by
  have same := Array.find?_some first
  obtain ⟨i, here⟩ := Array.getElem?_of_mem (Array.mem_of_find?_eq_some first)
  refine ⟨beq_iff_eq.1 same, i, here, ?_⟩
  rw [← mirrors.headers, List.getElem?_map, Array.getElem?_toList, here, Option.map_some]

/-- No relocation is applied to the globals. -/
theorem relocations_of_keepsGlobals (isFile : module.IsFile file)
    (keeps : (Transcript.ofBytes file).KeepsGlobals)
    (first : module.section? .globals = some found) : found.relocations = #[] := by
  obtain ⟨id, i, here, there⟩ := header_of_section? isFile.mirrors first
  refine Array.eq_empty_of_size_eq_zero (Nat.eq_zero_of_not_pos fun some => ?_)
  obtain ⟨target, rfl, listed⟩ := isFile.mirrors.relocations i found here _
    (Array.getElem_mem some)
  refine keeps target (List.mem_filterMap.2 ⟨_, listed, rfl⟩) ?_
  rw [Transcript.headers, there, Option.map_some, id]

/-- The globals of an input, each with the bytes that it has in the section for globals. -/
structure HasGlobals (module : ObjectModule) (globals : List (GlobalType × Bytes)) : Prop where
  each : ∀ found ∈ globals, IsGlobal found.1 found.2
  types : module.globals.toList = globals.map (·.1)
  /-- Without a section there are none. -/
  none : module.section? .globals = none → globals = []
  bytes : ∀ found, module.section? .globals = some found →
    module.slice found.header.payload = .ok (globals.flatMap (·.2))

theorem IsFile.globals (isFile : module.IsFile file)
    (single : (Transcript.ofBytes file).SingleGlobals) : ∃ globals, module.HasGlobals globals := by
  have whole : Transcript.ofBytes file = ⟨(Transcript.ofBytes file).events, none⟩ := by
    rw [← isFile.fault]
  obtain ⟨-, sections, events, each⟩ := Transcript.sections_of_ofBytes whole
  have headers := headers_eventsOf each
  have types := isFile.mirrors.globals
  unfold Transcript.SingleGlobals Transcript.headers at single
  rw [events] at types
  rw [events, headers, List.map_map] at single
  rcases first : module.section? .globals with _ | found
  · refine ⟨[], by simp, ?_, fun _ => rfl, by simp [first]⟩
    rw [types]
    refine globalTypes_of_count_eq_zero each (List.count_eq_zero.2 fun member => ?_)
    obtain ⟨piece, member, id⟩ := List.mem_map.1 member
    have listed : piece.1 ∈ module.sections.toList.map (·.header) := by
      rw [isFile.mirrors.headers, events, headers]
      exact List.mem_map_of_mem member
    obtain ⟨found, here, same⟩ := List.mem_map.1 listed
    refine Array.find?_eq_none.1 first found (Array.mem_toList_iff.1 here) ?_
    rw [same, id]
    rfl
  · obtain ⟨id, i, -, there⟩ := header_of_section? isFile.mirrors first
    rw [events, headers] at there
    obtain ⟨⟨header, contents⟩, member, same⟩ := List.mem_map.1 (List.mem_of_getElem? there)
    cases same
    obtain ⟨globals, isGlobal, read, payload⟩ := (each _ member).globals id
    refine ⟨globals, isGlobal, ?_, by simp [first], ?_⟩
    · rw [types, globalTypes_of_single each single member id, read]
    · intro other same
      cases first.symm.trans same
      rw [slice, isFile.bytes, payload]
      rfl

end ObjectModule

/-! ## Programs -/

namespace Program

variable {program : Program}

/-- What is copied of one input for the section for globals. -/
def copiedGlobals (program : Program) (input : ObjectModule × ModuleId) : Except Error Bytes :=
  match input.1.section? .globals with
  | some found => program.relocate input.2 found found.header.payload
  | none => .ok []

theorem relocateSections_globals (program : Program) :
    program.relocateSections .globals = (do
      return (← program.modules.zipIdx.mapM program.copiedGlobals).flatten) := rfl

theorem copiedGlobals_eq_ok {owner : ModuleId} {module : ObjectModule} {bytes : Bytes}
    (input : program.modules[owner]? = some module) (isFile : module.IsFile file)
    (single : (Transcript.ofBytes file).SingleGlobals)
    (keeps : (Transcript.ofBytes file).KeepsGlobals)
    (h : program.copiedGlobals (module, owner) = .ok bytes) :
    ∃ globals, module.HasGlobals globals ∧ bytes = globals.flatMap (·.2) := by
  obtain ⟨globals, has⟩ := isFile.globals single
  refine ⟨globals, has, ?_⟩
  unfold copiedGlobals at h
  rcases first : module.section? .globals with _ | found
  · simp only [first] at h
    cases h
    rw [has.none first]
    rfl
  · simp only [first] at h
    obtain ⟨_, here, h⟩ := bind_eq_ok.1 h
    cases (existing_eq_ok.1 here).symm.trans input
    obtain ⟨original, copied, h⟩ := bind_eq_ok.1 h
    -- Without relocations the bytes stay as they are.
    rw [ObjectModule.relocations_of_keepsGlobals isFile keeps first] at h
    cases h
    exact Except.ok.inj (copied.symm.trans (has.bytes found first))

/-- What is copied of all inputs for the section for globals are the bytes of their globals. -/
theorem exists_globals {inputs : List (String × Bytes)} {bytes : Bytes}
    (measured : program.Measured inputs)
    (single : ∀ input ∈ inputs, (Transcript.ofBytes input.2).SingleGlobals)
    (keeps : ∀ input ∈ inputs, (Transcript.ofBytes input.2).KeepsGlobals)
    (h : program.relocateSections .globals = .ok bytes) :
    ∃ globals, List.Forall₂ ObjectModule.HasGlobals program.modules globals ∧
      bytes = globals.flatten.flatMap (·.2) := by
  rw [relocateSections_globals] at h
  obtain ⟨pieces, copied, rfl⟩ := return_eq_ok.1 h
  have inputs (input : ObjectModule × ModuleId) (member : input ∈ program.modules.zipIdx)
      (bytes : Bytes) (h : program.copiedGlobals input = .ok bytes) :
      ∃ globals, input.1.HasGlobals globals ∧ bytes = globals.flatMap (·.2) := by
    obtain ⟨module, owner⟩ := input
    have here := List.mk_mem_zipIdx_iff_getElem?.1 member
    have small : owner < inputs.length := by
      rw [← measured.size]
      exact (List.getElem?_eq_some_iff.1 here).1
    have listed : inputs[owner] ∈ inputs := List.getElem_mem small
    have isFile := measured.each owner inputs[owner].1 inputs[owner].2 module
      (List.getElem?_eq_getElem small) here
    exact copiedGlobals_eq_ok here isFile (single _ listed) (keeps _ listed) h
  rw [← List.zipIdx_map_fst 0 program.modules]
  clear h
  generalize program.modules.zipIdx = items at copied inputs
  induction items generalizing pieces with
  | nil =>
    cases copied
    exact ⟨[], .nil, rfl⟩
  | cons input items ih =>
    obtain ⟨one, others⟩ := List.forall_mem_cons.1 inputs
    rw [List.mapM_cons] at copied
    obtain ⟨piece, first, copied⟩ := bind_eq_ok.1 copied
    obtain ⟨more, later, rfl⟩ := return_eq_ok.1 copied
    obtain ⟨globals, has, rfl⟩ := one piece first
    obtain ⟨lists, all, same⟩ := ih more later others
    refine ⟨globals :: lists, .cons has all, ?_⟩
    rw [List.flatten_cons, List.flatten_cons, List.flatMap_append, same]

end Program

end StaticLink
