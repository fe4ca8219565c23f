import StaticLink.Proofs.Inputs.Sizes
import StaticLink.Proofs.Scan.Placement

/-!
# Where the parts of a module lie

* `ObjectModule.LaidOut`: the sections and data segments of a module lie in its file.
* `Program.laidOut_of_ofInputs`: so do those of every input of a program.
-/

namespace StaticLink

/-- The positions of a span of the file have bytes. -/
theorem Bytes.exists_slice? {file : Bytes} {span : Span} (order : span.start ≤ span.stop)
    (within : span.stop ≤ file.length) : ∃ piece, file.slice? span = some piece := by
  have enough : Bytes.hasAtLeast (file.drop span.start) span.size = true := by
    rw [Bytes.hasAtLeast_iff, List.length_drop, Span.size]
    omega
  refine ⟨(file.drop span.start).take span.size, ?_⟩
  rw [Bytes.slice?, if_pos order, Bytes.splitExactly?, if_pos enough]
  rfl

/-! ## Loading -/

namespace ObjectModule

variable {owner : ModuleId} {name : String} {bytes : Bytes} {start symbols : SymbolTable}
  {module : ObjectModule}

/-- The alignment of each data segment is the default one or one that an event states. -/
def Aligns (module : ObjectModule) (events : List Event) : Prop :=
  ∀ segment ∈ module.dataSegments,
    segment.info.alignment = 0 ∨
      segment.info.alignment ∈ events.filterMap Event.alignment?

variable {events : List Event} {event : Event} {other : ObjectModule}

theorem Aligns.later (aligns : module.Aligns events)
    (same : other.dataSegments = module.dataSegments) : other.Aligns (events ++ [event]) := by
  rw [Aligns, same]
  intro segment member
  rw [List.filterMap_append]
  exact (aligns segment member).imp_right (List.mem_append_left _)

theorem aligns_push (aligns : module.Aligns events) {memory : UInt32} {offset : Int32}
    {data : Span} : ObjectModule.Aligns { module with
      dataSegments := module.dataSegments.push { memory, offset, data } } (events ++ [event]) := by
  intro segment member
  rw [List.filterMap_append]
  rcases Array.mem_push.1 member with member | rfl
  · exact (aligns segment member).imp_right (List.mem_append_left _)
  · exact .inl rfl

theorem aligns_describeSegment (aligns : module.Aligns events) {index alignment flags : UInt32}
    {name : String} : (module.describeSegment index { name, alignment, flags }).Aligns
      (events ++ [.segmentInfo index name alignment flags]) := by
  intro segment member
  rw [List.filterMap_append]
  dsimp only [describeSegment] at member
  rcases mem_or_exists_of_mem_modify member with member | ⟨old, -, rfl⟩
  · exact (aligns segment member).imp_right (List.mem_append_left _)
  · exact .inr (List.mem_append_right _ (List.mem_singleton.2 rfl))

theorem aligns_of_note {before after : Loading}
    (h : Loader.note owner event before = .ok () after) (aligns : before.module.Aligns events) :
    after.module.Aligns (events ++ [event]) := by
  cases event with
  | dataSegment index memory offset data =>
    cases h
    exact aligns_push aligns
  | segmentInfo index name alignment flags =>
    rw [Loader.note_segmentInfo] at h
    split at h
    · cases h
      exact aligns_describeSegment aligns
    · cases h
  | relocation target relocation =>
    rw [Loader.note_relocation] at h
    split at h
    · cases h
      exact aligns.later rfl
    · cases h
  | symbol index entry =>
    obtain ⟨slot, middle, one, h⟩ := state_bind_eq_ok.1 h
    cases h
    have same : middle.module.dataSegments = before.module.dataSegments := by
      rcases Loader.module_of_resolve one with same | ⟨target, id, same⟩
      · rw [same]
      · rw [same]
        unfold nameImport
        split <;> rfl
    exact aligns.later same
  | _ =>
    cases h
    exact aligns.later rfl

/-- The sections of the module lie in its file, and so do its data segments, one behind the other.
Their alignments are those of addresses. -/
structure LaidOut (module : ObjectModule) : Prop where
  sections : ∀ found ∈ module.sections, found.header.Between 0 module.bytes.length
  data : Span.InOrder 0 (module.dataSegments.toList.map (·.data)) module.bytes.length
  alignments : ∀ segment ∈ module.dataSegments, segment.info.alignment.toNat < 32

theorem load_laidOut (h : ObjectModule.load owner name bytes start = .ok module symbols) :
    module.LaidOut := by
  obtain ⟨fault, last, run, rfl, -⟩ := load_run h
  obtain ⟨-, whole, mirrors⟩ := load_mirrors h
  have laidOut : StaticLink.LaidOut 0 (Transcript.ofBytes bytes).events bytes.length :=
    (LaidOut.nil (Nat.zero_le 4)).append (Transcript.laidOut_of_ofBytes (by rw [← fault]))
  have aligns : last.module.Aligns ([] ++ (Transcript.ofBytes bytes).events) :=
    forM_keeps (fun seen loading => loading.module.Aligns seen) run
      (fun seen event before after step aligns => aligns_of_note step aligns)
      (by simp [Aligns])
  refine ⟨?_, ?_, ?_⟩
  · intro found member
    rw [whole]
    apply laidOut.headers
    rw [← mirrors.headers]
    exact List.mem_map_of_mem member.val
  · rw [mirrors.data, whole]
    exact laidOut.data
  · intro segment member
    rcases aligns segment member with default | stated
    · rw [default]
      decide
    · exact laidOut.alignments _ stated

end ObjectModule

/-! ## All inputs -/

namespace Session

variable {inputs : List (String × Bytes)} {before after : Session} {name : String} {bytes : Bytes}

theorem addAll_laidOut (h : addAll inputs .empty = .ok () after) :
    ∀ module ∈ after.modules, module.LaidOut := by
  refine forM_preserves (fun session => ∀ module ∈ session.modules, module.LaidOut) h ?_
    (by simp [Session.empty])
  rintro ⟨name, bytes⟩ before after step laidOut module member
  obtain ⟨last, loaded, modules⟩ := add_eq_ok step
  rw [modules] at member
  rcases List.mem_append.1 member with member | member
  · exact laidOut module member
  · obtain rfl := List.mem_singleton.1 member
    exact ObjectModule.load_laidOut loaded

end Session

theorem Program.laidOut_of_ofInputs {inputs : List (String × Bytes)} {options : Options}
    {program : Program} (h : ofInputs inputs options = .ok program) :
    ∀ module ∈ program.modules, module.LaidOut := by
  obtain ⟨session, added, decided⟩ := decided_of_ofInputs h
  rw [← decided.modules]
  exact Session.addAll_laidOut added

end StaticLink
