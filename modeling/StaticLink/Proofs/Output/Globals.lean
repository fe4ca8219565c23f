import StaticLink.Proofs.Output.ReadBack
import StaticLink.Proofs.Program.Globals

/-!
# The section for globals of a linked module

The globals of the inputs are copied as bytes, behind those of the linker, and numbered by counts.
A reader of the linked module finds each of them at the place that its number says.

* `Program.HasGlobalEntry`: the type of a global, and the bytes of its entry.
* `Program.ShowsGlobals`: what a reader finds of the section for globals.
* `Program.Written.showsGlobals`: it finds the entry of each global at its place.
* `link_globals`: it holds of every linked module.
-/

namespace StaticLink

open Scanner (Finds IsGlobal)

namespace Program

/-- The type of a global of the linked module, and the bytes of its entry. -/
inductive HasGlobalEntry (program : Program) : OutputGlobal → GlobalType × Bytes → Prop
  /-- A constant that can be changed. -/
  | supplied {id : SymbolId} {initial : Int32} (stands : program.SuppliesGlobal id initial) :
    HasGlobalEntry program (.supplied id)
      (syntheticGlobalType, syntheticGlobalType.encode ++ constantExpression initial)
  /-- What stands in the file of its input. -/
  | defined {owner : ModuleId} {module : ObjectModule} {globals : List (GlobalType × Bytes)}
      {position : Nat} {entry : GlobalType × Bytes} (input : program.modules[owner]? = some module)
      (has : module.HasGlobals globals) (here : globals[position]? = some entry) :
    HasGlobalEntry program (.defined owner position) entry

/-- A reader of the linked module `output` finds a section for globals with this opening and these
entries. -/
structure ShowsGlobals (program : Program) (output : Bytes) (header : SectionHeader)
    (entries : List (GlobalType × Bytes)) : Prop where
  fault : (Transcript.ofBytes output).fault = none
  /-- There is one such section. -/
  only : (Transcript.ofBytes output).headers.filter (·.id == .globals) = [header]
  types : (Transcript.ofBytes output).events.filterMap Event.globalType? = entries.map (·.1)
  contents : output.slice? header.range =
    some (encodeNat program.globalCount ++ entries.flatMap (·.2))
  size : entries.length = program.globalCount
  /-- The count of the section is not cut off. -/
  small : program.globalCount < wordLimit
  /-- The bytes of the section are globals in this way only. -/
  cut : ∀ others : List (GlobalType × Bytes), (∀ other ∈ others, IsGlobal other.1 other.2) ∧
    others.flatMap (·.2) = entries.flatMap (·.2) ↔ others = entries
  entry : ∀ global index, program.HasGlobalIndex global index →
    program.imports.globals.length ≤ index →
    ∃ entry, entries[index - program.imports.globals.length]? = some entry ∧
      program.HasGlobalEntry global entry

variable {program : Program} {interface : Interface} {contents : SectionId → Option Bytes}
  {output : Bytes} {inputs : List (String × Bytes)} {global : OutputGlobal} {index : Nat}
  {globals : List (List (GlobalType × Bytes))}

/-! ## Entries -/

theorem length_suppliedGlobals (wf : program.symbols.WellFormed) :
    program.suppliedGlobals.length = program.symbols.syntheticGlobals.length := by
  rw [suppliedGlobals, List.length_map, (forall₂_syntheticGlobals wf).length_eq]

/-- The entries stand in the order of the indices. -/
theorem entry_of_hasGlobalIndex (wf : program.symbols.WellFormed)
    (has : List.Forall₂ ObjectModule.HasGlobals program.modules globals)
    (numbered : program.HasGlobalIndex global index)
    (behind : program.imports.globals.length ≤ index) :
    ∃ entry, (program.globalsWith globals)[index - program.imports.globals.length]? = some entry ∧
      program.HasGlobalEntry global entry := by
  unfold globalsWith
  cases numbered with
  | imported found =>
    have before := (List.findIdx?_eq_some_iff_getElem.1 found).1
    omega
  | supplied stands found =>
    obtain ⟨place, here⟩ := List.mem_iff_getElem?.1 ((mem_syntheticGlobals_iff wf).2 ⟨_, stands⟩)
    rw [globalIndex_of_synthetic wf here] at found
    cases found
    obtain ⟨initial, there, stands⟩ := exists_of_forall₂ (forall₂_syntheticGlobals wf) here
    have small := (List.getElem?_eq_some_iff.1 here).1
    refine ⟨_, ?_, .supplied stands⟩
    rw [Nat.add_sub_cancel_left,
      List.getElem?_append_left (by rw [length_suppliedGlobals wf]; exact small), suppliedGlobals,
      List.getElem?_map, there]
    rfl
  | @defined owner position module input small =>
    have place : program.globalBase owner + position - program.imports.globals.length =
        program.suppliedGlobals.length +
          (countBefore (·.globals.size) program.modules owner + position) := by
      rw [length_suppliedGlobals wf]
      unfold globalBase syntheticGlobalBase
      omega
    have sizes (owner : ModuleId) (module : ObjectModule) (own : List (GlobalType × Bytes))
        (here : program.modules[owner]? = some module) (there : globals[owner]? = some own) :
        own.length = module.globals.size := by
      rw [← Array.length_toList, (getElem?_of_forall₂ has here there).types, List.length_map]
    obtain ⟨own, there, known⟩ := exists_of_forall₂ has input
    have within : position < own.length := by
      rw [sizes owner module own input there]
      exact small
    have here : own[position]? = some own[position] := List.getElem?_eq_getElem within
    refine ⟨own[position], ?_, .defined input known here⟩
    rw [place, List.getElem?_append_right (Nat.le_add_right _ _), Nat.add_sub_cancel_left,
      getElem?_flatten_of_sizes (·.globals.size) sizes input there small, here]

/-! ## Reading -/

/-- An item with a key of its own is the only one with this key. -/
theorem filter_eq_singleton {α β : Type} [DecidableEq β] {key : α → β} {items : List α} {item : α}
    (nodup : (items.map key).Nodup) (member : item ∈ items) :
    items.filter (key · == key item) = [item] := by
  induction items with
  | nil => cases member
  | cons first rest ih =>
    obtain ⟨new, others⟩ := List.nodup_cons.1 nodup
    rcases List.mem_cons.1 member with rfl | later
    · rw [List.filter_cons_of_pos (by simp), List.cons_inj_right]
      refine List.filter_eq_nil_iff.2 fun other among same => new ?_
      rw [← beq_iff_eq.1 same]
      exact List.mem_map_of_mem among
    · have differ : key first ≠ key item := fun same => new (same ▸ List.mem_map_of_mem later)
      rw [List.filter_cons_of_neg (by simpa using differ)]
      exact ih others later

theorem globalTypes_of_reexposed (types : List GlobalType) (number : GlobalType × Nat → UInt32) :
    (types.zipIdx.map fun found => Event.global (number found) found.1).filterMap
      Event.globalType? = types := by
  rw [List.filterMap_map]
  show types.zipIdx.filterMap (fun found => some found.1) = types
  rw [List.filterMap_eq_map', List.zipIdx_map_fst]

/-- A reader finds the section for globals with all its entries. -/
theorem Written.showsGlobals {bytes : Bytes} {base : Nat}
    (written : program.Written interface contents output) (here : contents .globals = some bytes)
    (wf : program.symbols.WellFormed) (measured : program.Measured inputs)
    (placed : program.layout.Placed program.modules base)
    (single : ∀ input ∈ inputs, (Transcript.ofBytes input.2).SingleGlobals)
    (keeps : ∀ input ∈ inputs, (Transcript.ofBytes input.2).KeepsGlobals) :
    ∃ header entries, program.ShowsGlobals output header entries := by
  obtain ⟨globals, has, counted, rfl⟩ := written.exists_globalEntries here measured single keeps
  obtain ⟨sections, transcript, finds⟩ := written.exists_sections measured placed single keeps
  obtain ⟨order, -, each⟩ := order_of_finds finds
  have ids : sections.map (·.1.id) =
      SectionId.outputOrder.filter fun id => (contents id).isSome := by
    have order := congrArg (List.map Prod.fst) order
    rw [List.map_map, List.map_map] at order
    simpa [Function.comp_def] using order
  have nodup : (sections.map (·.1.id)).Nodup := by
    rw [ids]
    exact List.Nodup.filter _ (by decide)
  have listed : SectionId.globals ∈
      SectionId.outputOrder.filter fun id => (contents id).isSome :=
    List.mem_filter.2 ⟨by decide, by rw [here]; rfl⟩
  obtain ⟨i, among⟩ := List.mem_iff_getElem?.1 listed
  obtain ⟨⟨header, noted⟩, there, found⟩ := exists_of_forall₂ finds among
  have member := List.mem_of_getElem? there
  have events : noted = program.globalTypes.zipIdx.map fun pair =>
      .global (.ofNat ((program.importsIn contents).globals.length + pair.2)) pair.1 :=
    found.entries
  refine ⟨header, program.globalsWith globals, ?_, ?_, ?_, ?_, length_globalsWith has, ?_, ?_,
    fun _ _ => entry_of_hasGlobalIndex wf has⟩
  · rw [transcript]
  · rw [transcript, Transcript.headers, headers_eventsOf each, ← found.opening]
    exact filter_eq_singleton (by rw [List.map_map]; exact nodup) (List.mem_map_of_mem member)
  · rw [transcript, types_globalsWith has, globalTypes_of_single each
      (List.nodup_iff_count_le_one.1 nodup .globals) member found.opening, events]
    exact globalTypes_of_reexposed _ _
  · rw [found.range, here]
  · rw [← length_globalsWith has, ← counted]
    exact UInt32.toNat_lt _
  · intro others
    constructor
    · rintro ⟨each, same⟩
      exact Scanner.globals_unique each (isGlobal_of_mem_globalsWith has) same
    · rintro rfl
      exact ⟨isGlobal_of_mem_globalsWith has, rfl⟩

end Program

/-- The globals of a linked module have all the indices below their number, in the order of the
imports, the globals that the linker supplies and the inputs. A reader finds one section for
globals, and in it the entry of each global at its place behind the imports.

The number of globals is written as a word. Only where it is a positive multiple of `wordLimit`, so
that the word is zero, are they without a section, and inputs of fewer than `wordLimit` bytes have no
such number. -/
theorem link_globals {inputs : List (String × Bytes)} {options : Options} {output : Bytes}
    (linked : link inputs options = .ok output)
    (single : ∀ input ∈ inputs, (Transcript.ofBytes input.2).SingleGlobals)
    (keeps : ∀ input ∈ inputs, (Transcript.ofBytes input.2).KeepsGlobals) :
    ∃ program interface contents, Program.ofInputs inputs options = .ok program ∧
      program.Written interface contents output ∧ program.NumbersGlobals ∧
      ((∃ header entries, program.ShowsGlobals output header entries) ∨
        contents .globals = none ∧ wordLimit ≤ program.globalCount) ∧
      (totalSize inputs < wordLimit →
        program.imports.globals.length + program.globalCount < wordLimit) := by
  obtain ⟨program, interface, decided, -, written⟩ := exists_written_of_link linked
  obtain ⟨session, -, parts⟩ := Program.decided_of_ofInputs decided
  have wf := (Program.sound_of_ofInputs decided).wellFormed
  have measured := Program.measured_of_ofInputs decided
  have placed := DataLayout.placed_of_ofModules parts.layout
  have numbers := Program.numbersGlobals_of_ofInputs decided
  refine ⟨program, interface, _, decided, written, numbers, ?_,
    Program.globalCount_lt_of_ofInputs decided⟩
  rcases vectorContents_eq_ok (written.made .globals) with ⟨zero, none⟩ | ⟨-, bytes, -, some⟩
  · have zero : program.globalCount % wordLimit = 0 := congrArg UInt32.toNat zero
    have many := Nat.le_of_dvd (numbers.globalCount_pos wf) (Nat.dvd_of_mod_eq_zero zero)
    exact .inr ⟨none, many⟩
  · exact .inl (written.showsGlobals some wf measured placed single keeps)

/-- Two inputs with globals of their own, of which the first refers to another one. -/
def counters : List (String × Bytes) :=
  [("first.o",
      [0, 97, 115, 109, 1, 0, 0, 0, 2, 8, 1, 1, 101, 1, 120, 3, 127, 0, 6, 11, 2, 127, 1, 65, 5,
       11, 126, 0, 66, 7, 11, 0, 20, 7, 108, 105, 110, 107, 105, 110, 103, 2, 8, 9, 2, 2, 16, 0, 2,
       0, 1, 1, 97]),
    ("second.o",
      [0, 97, 115, 109, 1, 0, 0, 0, 6, 6, 1, 126, 0, 66, 9, 11, 0, 17, 7, 108, 105, 110, 107, 105,
       110, 103, 2, 8, 6, 1, 2, 0, 0, 1, 98])]

/-- What they are linked to. -/
def linkedCounters : Bytes :=
  [0, 97, 115, 109, 1, 0, 0, 0, 2, 136, 128, 128, 128, 0, 1, 1, 101, 1, 120, 3, 127, 0, 4, 133,
   128, 128, 128, 0, 1, 112, 1, 1, 1, 5, 131, 128, 128, 128, 0, 1, 0, 2, 6, 151, 128, 128, 128, 0,
   4, 127, 1, 65, 128, 128, 8, 11, 127, 1, 65, 5, 11, 126, 0, 66, 7, 11, 126, 0, 66, 9, 11, 7, 138,
   128, 128, 128, 0, 1, 6, 109, 101, 109, 111, 114, 121, 2, 0]

/-- The global of the second input is the last of five, behind the import and the stack pointer, and
its entry is the last of four. -/
theorem link_counters :
    ∃ (program : Program) (header : SectionHeader) (entries : List (GlobalType × Bytes))
      (entry : GlobalType × Bytes),
      program.outputGlobals =
        [.imported ⟨"e", "x"⟩, .supplied 4, .defined 0 0, .defined 0 1, .defined 1 0] ∧
      program.HasGlobalIndex (.defined 1 0) 4 ∧
      program.ShowsGlobals linkedCounters header entries ∧
      entries.flatMap (·.2) = [127, 1, 65, 128, 128, 8, 11, 127, 1, 65, 5, 11, 126, 0, 66, 7, 11,
        126, 0, 66, 9, 11] ∧
      entries[3]? = some entry ∧ program.HasGlobalEntry (.defined 1 0) entry := by
  have linked : link counters {} = .ok linkedCounters := by decide +kernel
  have single : ∀ input ∈ counters, (Transcript.ofBytes input.2).SingleGlobals := by decide +kernel
  have keeps : ∀ input ∈ counters, (Transcript.ofBytes input.2).KeepsGlobals := by decide +kernel
  have facts : ((Program.ofInputs counters {}).map fun program =>
      (program.outputGlobals, program.imports.globals.length, program.globalCount)) =
        .ok ([.imported ⟨"e", "x"⟩, .supplied 4, .defined 0 0, .defined 0 1, .defined 1 0],
          1, 4) := by
    decide +kernel
  obtain ⟨program, _, _, decided, -, numbers, shown, -⟩ := link_globals linked single keeps
  rw [decided] at facts
  obtain ⟨globals, facts⟩ := Prod.mk.inj (Except.ok.inj facts)
  obtain ⟨imports, count⟩ := Prod.mk.inj facts
  have header : (Transcript.ofBytes linkedCounters).headers.filter (·.id == .globals) =
      [⟨3, .globals, none, ⟨48, 71⟩, ⟨49, 71⟩, some 4⟩] := by decide +kernel
  have range : linkedCounters.slice? ⟨48, 71⟩ = some [4, 127, 1, 65, 128, 128, 8, 11, 127, 1, 65, 5,
      11, 126, 0, 66, 7, 11, 126, 0, 66, 9, 11] := by decide +kernel
  rcases shown with ⟨_, entries, shows⟩ | ⟨-, many⟩
  · cases header.symm.trans shows.only
    have bytes := Option.some.inj (range.symm.trans shows.contents)
    rw [count] at bytes
    have has : program.HasGlobalIndex (.defined 1 0) 4 := by
      rw [numbers.index_iff, globals]
      rfl
    obtain ⟨entry, here, is⟩ := shows.entry _ 4 has (by omega)
    rw [imports] at here
    exact ⟨program, _, entries, entry, globals, has, shows, (List.cons.inj bytes).2.symm, here, is⟩
  · rw [count] at many
    exact absurd many (by decide)

end StaticLink
