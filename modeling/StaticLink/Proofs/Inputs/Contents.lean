import StaticLink.Proofs.Inputs.Session
import StaticLink.Proofs.Scan.Sections

/-!
# What a module takes over from its file

A module has the sections, functions, globals and segments that its file holds, one for each event,
in their order.

* `ObjectModule.Mirrors`: a module has what some events say.
* `ObjectModule.load_mirrors`: a module that was loaded has what its file says.
-/

namespace StaticLink

namespace Event

/-- The opening of a section. -/
def header? : Event → Option SectionHeader
  | opening header => some header
  | _ => none

/-- The type index of a function that is defined. -/
def functionType? : Event → Option UInt32
  | function _ typeIndex => some typeIndex
  | _ => none

/-- The type of a global that is defined. -/
def globalType? : Event → Option GlobalType
  | global _ type => some type
  | _ => none

/-- Where the bytes of a data segment are. -/
def dataSpan? : Event → Option Span
  | dataSegment _ _ _ data => some data
  | _ => none

/-- The functions that an element segment lists. -/
def elements? : Event → Option (List UInt32)
  | elementSegment _ _ _ functions => some functions
  | _ => none

/-- The name of a function. -/
def functionName? : Event → Option (UInt32 × String)
  | functionName index name => some (index, name)
  | _ => none

end Event

/-- The module has the sections, functions, globals, segments and names of functions that the events
say, and the relocations of each section are among them. -/
structure ObjectModule.Mirrors (module : ObjectModule) (events : List Event) : Prop where
  headers : module.sections.toList.map (·.header) = events.filterMap Event.header?
  functions : module.functions.toList = events.filterMap Event.functionType?
  globals : module.globals.toList = events.filterMap Event.globalType?
  data : module.dataSegments.toList.map (·.data) = events.filterMap Event.dataSpan?
  elements : module.elementSegments.toList.map (·.functions) = events.filterMap Event.elements?
  names : module.functionNames.toList = events.filterMap Event.functionName?
  relocations : ∀ i found, module.sections[i]? = some found →
    ∀ relocation ∈ found.relocations, ∃ target : UInt32, target.toNat = i ∧
      Event.relocation target relocation ∈ events

namespace Loader

variable {owner : ModuleId} {before after : Loading} {event : Event} {events : List Event}

/-- Resolving an entry at most gives a symbol to an import. -/
theorem module_of_resolve {index : UInt32} {entry : SymbolEntry} {slot : Slot}
    (h : resolve owner index entry before = .ok slot after) :
    after.module = before.module ∨
      ∃ target id, after.module = before.module.nameImport target id := by
  rcases resolve_cases h with ⟨-, rfl⟩ | ⟨name, target, id, -, -, named, -⟩
  · exact .inl rfl
  · exact .inr ⟨target, id, named⟩

end Loader

namespace ObjectModule

variable {module other : ObjectModule} {events : List Event} {event : Event}

/-- The module `other` has what `module` has and what the event says. -/
structure Takes (module : ObjectModule) (event : Event) (other : ObjectModule) : Prop where
  bytes : other.bytes = module.bytes
  headers : other.sections.toList.map (·.header) =
    module.sections.toList.map (·.header) ++ event.header?.toList
  functions : other.functions.toList = module.functions.toList ++ event.functionType?.toList
  globals : other.globals.toList = module.globals.toList ++ event.globalType?.toList
  data : other.dataSegments.toList.map (·.data) =
    module.dataSegments.toList.map (·.data) ++ event.dataSpan?.toList
  elements : other.elementSegments.toList.map (·.functions) =
    module.elementSegments.toList.map (·.functions) ++ event.elements?.toList
  names : other.functionNames.toList = module.functionNames.toList ++ event.functionName?.toList
  relocations : ∀ i found, other.sections[i]? = some found → ∀ relocation ∈ found.relocations,
    (∃ old, module.sections[i]? = some old ∧ relocation ∈ old.relocations) ∨
      ∃ target : UInt32, target.toNat = i ∧ event = .relocation target relocation

theorem filterMap_concat {β : Type} (pick : Event → Option β) (events : List Event)
    (event : Event) :
    (events ++ [event]).filterMap pick = events.filterMap pick ++ (pick event).toList := by
  rw [List.filterMap_append]
  rcases here : pick event with _ | found
  · rw [List.filterMap_cons_none here]
    rfl
  · rw [List.filterMap_cons_some here]
    rfl

theorem Mirrors.concat (mirrors : module.Mirrors events) (takes : module.Takes event other) :
    other.Mirrors (events ++ [event]) where
  headers := by rw [filterMap_concat, takes.headers, mirrors.headers]
  functions := by rw [filterMap_concat, takes.functions, mirrors.functions]
  globals := by rw [filterMap_concat, takes.globals, mirrors.globals]
  data := by rw [filterMap_concat, takes.data, mirrors.data]
  elements := by rw [filterMap_concat, takes.elements, mirrors.elements]
  names := by rw [filterMap_concat, takes.names, mirrors.names]
  relocations := by
    intro i found here relocation member
    rcases takes.relocations i found here relocation member with
      ⟨old, there, member⟩ | ⟨target, same, rfl⟩
    · obtain ⟨target, same, listed⟩ := mirrors.relocations i old there relocation member
      exact ⟨target, same, List.mem_append_left _ listed⟩
    · exact ⟨target, same, List.mem_append_right _ (List.mem_singleton.2 rfl)⟩

/-- A change that does not touch the sections. -/
theorem takes_of_sections (bytes : other.bytes = module.bytes)
    (sections : other.sections = module.sections) (header : event.header? = none)
    (functions : other.functions.toList = module.functions.toList ++ event.functionType?.toList)
    (globals : other.globals.toList = module.globals.toList ++ event.globalType?.toList)
    (data : other.dataSegments.toList.map (·.data) =
      module.dataSegments.toList.map (·.data) ++ event.dataSpan?.toList)
    (elements : other.elementSegments.toList.map (·.functions) =
      module.elementSegments.toList.map (·.functions) ++ event.elements?.toList)
    (names : other.functionNames.toList =
      module.functionNames.toList ++ event.functionName?.toList) :
    module.Takes event other where
  bytes := bytes
  headers := by
    rw [sections, header]
    exact (List.append_nil _).symm
  functions := functions
  globals := globals
  data := data
  elements := elements
  names := names
  relocations := by
    intro i found here relocation member
    rw [sections] at here
    exact .inl ⟨found, here, member⟩

/-! ## Every event -/

/-- After a change of one item there are the items from before and one that was changed. -/
theorem mem_or_exists_of_mem_modify {α : Type} {items : Array α} {place : Nat} {change : α → α}
    {found : α} (member : found ∈ items.modify place change) :
    found ∈ items ∨ ∃ old ∈ items, found = change old := by
  obtain ⟨i, here⟩ := Array.mem_iff_getElem?.1 member
  rw [Array.getElem?_modify] at here
  split at here
  · obtain ⟨old, there, rfl⟩ := Option.map_eq_some_iff.1 here
    exact .inr ⟨old, Array.mem_of_getElem? there, rfl⟩
  · exact .inl (Array.mem_of_getElem? here)

/-- What a change of one item does not change is the same for all items. -/
theorem map_modify {α β : Type} (items : Array α) (place : Nat) {change : α → α} {view : α → β}
    (keeps : ∀ item, view (change item) = view item) :
    (items.modify place change).toList.map view = items.toList.map view := by
  refine List.ext_getElem? fun i => ?_
  simp only [List.getElem?_map, Array.getElem?_toList, Array.getElem?_modify]
  split
  · rw [Option.map_map, show view ∘ change = view from funext keeps]
  · rfl

theorem takes_opening (module : ObjectModule) (header : SectionHeader) :
    module.Takes (.opening header)
      { module with sections := module.sections.push { header } } where
  bytes := rfl
  headers := by
    rw [Array.toList_push, List.map_append]
    rfl
  functions := (List.append_nil _).symm
  globals := (List.append_nil _).symm
  data := (List.append_nil _).symm
  elements := (List.append_nil _).symm
  names := (List.append_nil _).symm
  relocations := by
    intro i found here relocation member
    rw [Array.getElem?_push] at here
    split at here
    · cases here
      simp at member
    · exact .inl ⟨found, here, member⟩

theorem takes_relocation (module : ObjectModule) (target : UInt32) (relocation : Relocation) :
    module.Takes (.relocation target relocation) (module.addRelocation target relocation) where
  bytes := rfl
  headers := by
    refine Eq.trans ?_ (List.append_nil _).symm
    exact map_modify _ _ fun _ => rfl
  functions := (List.append_nil _).symm
  globals := (List.append_nil _).symm
  data := (List.append_nil _).symm
  elements := (List.append_nil _).symm
  names := (List.append_nil _).symm
  relocations := by
    intro i found here other member
    simp only [addRelocation, Array.getElem?_modify] at here
    split at here
    · next same =>
      obtain ⟨old, there, rfl⟩ := Option.map_eq_some_iff.1 here
      rcases Array.mem_push.1 member with member | rfl
      · exact .inl ⟨old, there, member⟩
      · exact .inr ⟨target, same, rfl⟩
    · exact .inl ⟨found, here, member⟩

/-- What is said about a segment does not move its bytes. -/
theorem data_describeSegment (module : ObjectModule) (index : UInt32) (info : SegmentInfo) :
    (module.describeSegment index info).dataSegments.toList.map (·.data) =
      module.dataSegments.toList.map (·.data) :=
  map_modify _ _ fun _ => rfl

theorem takes_symbol {index : UInt32} {entry : SymbolEntry} {slots : Array Slot}
    (named : other = module ∨ ∃ target id, other = module.nameImport target id) :
    module.Takes (.symbol index entry) { other with slots } := by
  have none {β : Type} (list : List β) : list = list ++ [] := (List.append_nil list).symm
  rcases named with rfl | ⟨target, id, rfl⟩
  · exact takes_of_sections rfl rfl rfl (none _) (none _) (none _) (none _) (none _)
  · unfold nameImport
    split <;> exact takes_of_sections rfl rfl rfl (none _) (none _) (none _) (none _) (none _)

/-- Every event adds what it says to the module. -/
theorem takes_of_note {owner : ModuleId} {before after : Loading}
    (h : Loader.note owner event before = .ok () after) :
    before.module.Takes event after.module := by
  have none {β : Type} (list : List β) : list = list ++ [] := (List.append_nil list).symm
  cases event with
  | opening header =>
    cases h
    exact takes_opening before.module header
  | function index typeIndex =>
    cases h
    exact takes_of_sections rfl rfl rfl Array.toList_push (none _) (none _) (none _) (none _)
  | global index type =>
    cases h
    exact takes_of_sections rfl rfl rfl (none _) Array.toList_push (none _) (none _) (none _)
  | dataSegment index memory offset data =>
    cases h
    refine takes_of_sections rfl rfl rfl (none _) (none _) ?_ (none _) (none _)
    rw [Array.toList_push, List.map_append]
    rfl
  | elementSegment index table offset functions =>
    cases h
    refine takes_of_sections rfl rfl rfl (none _) (none _) (none _) ?_ (none _)
    rw [Array.toList_push, List.map_append]
    rfl
  | functionName index name =>
    cases h
    exact takes_of_sections rfl rfl rfl (none _) (none _) (none _) (none _) Array.toList_push
  | relocation target relocation =>
    rw [Loader.note_relocation] at h
    split at h
    · cases h
      exact takes_relocation before.module target relocation
    · cases h
  | segmentInfo index name alignment flags =>
    rw [Loader.note_segmentInfo] at h
    split at h
    · cases h
      refine takes_of_sections rfl rfl rfl (none _) (none _) ?_ (none _) (none _)
      rw [data_describeSegment]
      exact none _
    · cases h
  | symbol index entry =>
    obtain ⟨slot, middle, one, h⟩ := state_bind_eq_ok.1 h
    cases h
    exact takes_symbol (Loader.module_of_resolve one)
  | _ =>
    cases h
    exact takes_of_sections rfl rfl rfl (none _) (none _) (none _) (none _) (none _)

/-- A module that was loaded has what its file says. -/
theorem load_mirrors {owner : ModuleId} {name : String} {bytes : Bytes}
    {start symbols : SymbolTable} {module : ObjectModule}
    (h : ObjectModule.load owner name bytes start = .ok module symbols) :
    (Transcript.ofBytes bytes).fault = none ∧ module.bytes = bytes ∧
      module.Mirrors (Transcript.ofBytes bytes).events := by
  obtain ⟨fault, last, events, rfl, rfl⟩ := load_run h
  have empty : Mirrors { name, bytes } [] := ⟨rfl, rfl, rfl, rfl, rfl, rfl, by simp⟩
  have mirrors : last.module.bytes = bytes ∧
      last.module.Mirrors ([] ++ (Transcript.ofBytes bytes).events) := by
    refine forM_keeps (fun seen loading => loading.module.bytes = bytes ∧
      loading.module.Mirrors seen) events ?_ ⟨rfl, empty⟩
    intro seen event before after step mirrors
    have takes := takes_of_note step
    exact ⟨takes.bytes.trans mirrors.1, mirrors.2.concat takes⟩
  exact ⟨fault, mirrors⟩

end ObjectModule

end StaticLink
