import StaticLink.Proofs.Grammar.Tiling
import StaticLink.Proofs.Inputs.Rejection
import StaticLink.Proofs.Renaming.Loading

/-!
# Loading an input with a custom section that is ignored

A custom section that has no meaning to the linker may stand at the end of any file. The file is
scanned as before, with one more opening at the end, and the module that is loaded has one more entry
in its list of sections.

* `IgnoredSection`: such a section, and the bytes that it takes.
* `Transcript.ofBytes_append`: the events of a file with one behind it.
* `Loader.keepsBytes_note`: no step of loading looks at the bytes of the module.
* `ObjectModule.load_append`: the module of a file with one behind it.
-/

namespace StaticLink

/-! ## Sections that are ignored -/

/-- A custom section that is neither the linking section nor that of names, and holds no relocations
but those of sections for debuggers. The words stand in it in one of their spellings. -/
structure IgnoredSection where
  size : Grammar.Word
  name : Grammar.Name
  payload : Bytes
  filled : size.value.toNat = (name.bytes ++ payload).length
  notLinking : name.text ≠ CustomSection.linkingName
  notNames : name.text ≠ CustomSection.namesName
  notRelocations : name.text.startsWith CustomSection.relocationsStart = true →
    name.text.startsWith CustomSection.debugRelocationsStart = true

namespace IgnoredSection

variable (ignored : IgnoredSection)

/-- What stands in a file of the section. -/
def bytes : Bytes :=
  SectionId.custom.toByte :: ignored.size.bytes ++ (ignored.name.bytes ++ ignored.payload)

/-- How the section is opened that has this number and stands at this position of a file. -/
def header (number position : Nat) : SectionHeader :=
  let start := position + (1 + ignored.size.bytes.length)
  let stop := start + (ignored.name.bytes ++ ignored.payload).length
  { index := .ofNat number
    id := .custom
    name := some ignored.name.text
    range := ⟨start, stop⟩
    payload := ⟨start + ignored.name.bytes.length, stop⟩
    count := none }

theorem kind_eq_ignored : CustomSection.Kind.ofName ignored.name.text = .ignored := by
  rw [CustomSection.Kind.ofName, if_neg ignored.notLinking, if_neg ignored.notNames]
  by_cases debug : ignored.name.text.startsWith CustomSection.debugRelocationsStart = true
  · rw [if_pos debug]
  · have other : ¬ ignored.name.text.startsWith CustomSection.relocationsStart = true :=
      fun start => debug (ignored.notRelocations start)
    rw [if_neg debug, if_neg other]

/-- The section as a part of a file. -/
def node : Grammar.Section where
  size := ignored.size
  contents := .custom ignored.name (.ignored ignored.payload) ignored.kind_eq_ignored
  filled := ignored.filled

theorem bytes_node : ignored.node.bytes = ignored.bytes := rfl

/-- Nothing is noted of the section but that it is there. -/
theorem events_node (place : Grammar.Place) : ignored.node.events place =
    [.opening (ignored.header place.sections place.position)] := by
  have head : ignored.node.headBytes.length = 1 + ignored.size.bytes.length := by
    rw [Nat.add_comm]
    rfl
  show [Event.opening (ignored.node.opening place)] = _
  unfold Grammar.Section.opening Grammar.Contents.opening Grammar.Section.inside Grammar.Place.past
  dsimp only
  rw [head]
  rfl

end IgnoredSection

/-! ## Scanning -/

namespace Grammar

theorem sectionEvents_append (number : Nat) (place : Place) (nodes later : List Section) :
    sectionEvents number place (nodes ++ later) = sectionEvents number place nodes ++
      sectionEvents (number + nodes.length) (nodes.foldl Section.after place) later := by
  induction nodes generalizing number place with
  | nil => rfl
  | cons node nodes ih =>
    have count : number + (node :: nodes).length = number + 1 + nodes.length := by
      rw [List.length_cons]
      omega
    rw [List.cons_append, sectionEvents_cons, sectionEvents_cons, ih, List.append_assoc, count]
    rfl

/-- Behind some sections one is so many bytes further, and as many sections. -/
theorem foldl_after (place : Place) (nodes : List Section) :
    (nodes.foldl Section.after place).position =
        place.position + (nodes.flatMap Section.bytes).length ∧
      (nodes.foldl Section.after place).sections = place.sections + nodes.length := by
  induction nodes generalizing place with
  | nil => exact ⟨rfl, rfl⟩
  | cons node nodes ih =>
    obtain ⟨position, sections⟩ := ih (node.after place)
    have one : (node.after place).sections = place.sections + 1 := rfl
    rw [Section.position_after] at position
    rw [List.foldl_cons, List.flatMap_cons, List.length_append, List.length_cons]
    omega

theorem length_headers (number : Nat) (place : Place) (nodes : List Section) :
    ((sectionEvents number place nodes).filterMap Event.header?).length = nodes.length := by
  induction nodes generalizing number place with
  | nil => rfl
  | cons node nodes ih => rw [headers_cons, List.length_cons, ih, List.length_cons]

end Grammar

/-- Where a file has no fault, it has none with the section behind it, and there is one event more. -/
theorem Transcript.ofBytes_append (ignored : IgnoredSection) {file : Bytes} {events : List Event}
    (h : Transcript.ofBytes file = ⟨events, none⟩) :
    Transcript.ofBytes (file ++ ignored.bytes) = ⟨events ++
      [.opening (ignored.header (events.filterMap Event.header?).length file.length)], none⟩ := by
  -- The file is what some nodes are written as. Those, and the section as one more of them, are
  -- written as the longer file.
  obtain ⟨⟨nodes⟩, rfl, rfl⟩ := (Transcript.ofBytes_eq_iff file events).1 h
  rw [Transcript.ofBytes_eq_iff]
  refine ⟨⟨nodes ++ [ignored.node]⟩, ?_, ?_⟩
  · rw [Grammar.Module.bytes, Grammar.Module.bytes, List.flatMap_append, List.flatMap_singleton,
      ignored.bytes_node, List.append_assoc]
  · obtain ⟨position, sections⟩ := Grammar.foldl_after Grammar.Module.start nodes
    have start : Grammar.Module.start.position = Header.encode.length := rfl
    have first : Grammar.Module.start.sections = 0 := rfl
    show Grammar.sectionEvents 0 Grammar.Module.start (nodes ++ [ignored.node]) =
      Grammar.sectionEvents 0 Grammar.Module.start nodes ++ _
    rw [Grammar.sectionEvents_append]
    refine congrArg _ ?_
    show ignored.node.events _ ++ [] = _
    rw [List.append_nil, ignored.events_node, position, sections, start, first, Nat.zero_add,
      Grammar.Module.bytes, List.length_append]
    show _ = [Event.opening (ignored.header
      ((Grammar.sectionEvents 0 Grammar.Module.start nodes).filterMap Event.header?).length _)]
    rw [Grammar.length_headers]

/-! ## Loading -/

theorem Error.rename_id (error : Error) : error.rename id = error := by
  induction error with
  | input name cause ih => exact congrArg (Error.input name) ih
  | unsupported limitation => cases limitation <;> rfl
  | _ => rfl

/-- The loading of the same module with these bytes. -/
def Loading.withBytes (bytes : Bytes) (loading : Loading) : Loading :=
  { loading with module := { loading.module with bytes } }

namespace Loader

variable {bytes : Bytes}

/-- What changes a module without its bytes changes it in the same way. -/
theorem keepsBytes_update {change : ObjectModule → ObjectModule}
    (same : ∀ module : ObjectModule, change { module with bytes } = { change module with bytes }) :
    StateRenames id (Loading.withBytes bytes) id (update change) (update change) :=
  .modifies fun loading => congrArg
    (Loading.mk · loading.symbols loading.sectionStart) (same loading.module)

theorem keepsBytes_throw {α : Type} {change : α → α} (cause : Error) :
    StateRenames id (Loading.withBytes bytes) change (MonadExcept.throw cause)
      (MonadExcept.throw cause) := by
  have thrown : StateRenames id (Loading.withBytes bytes) change (MonadExcept.throw cause)
      (MonadExcept.throw (cause.rename id)) := .throw cause
  rwa [Error.rename_id] at thrown

theorem keepsBytes_fail {α : Type} {change : α → α} (defect : Defect) :
    StateRenames id (Loading.withBytes bytes) change (fail defect) (fail defect) :=
  StateRenames.get.bind fun loading => keepsBytes_throw (.malformed ⟨defect, loading.sectionStart⟩)

theorem keepsBytes_register (symbol : Symbol) :
    StateRenames id (Loading.withBytes bytes) id (register symbol) (register symbol) := by
  unfold register
  refine StateRenames.get.bind fun loading => .ite ?_ ?_
  · exact (StateRenames.set _).bind fun _ => .pure _
  · have same : (loading.withBytes bytes).symbols = loading.symbols := rfl
    rw [same]
    cases loading.symbols.add symbol with
    | error cause => exact keepsBytes_throw cause
    | ok added => exact (StateRenames.set _).bind fun _ => .pure _

theorem keepsBytes_resolve (owner : ModuleId) (index : UInt32) (entry : SymbolEntry) :
    StateRenames id (Loading.withBytes bytes) id (resolve owner index entry)
      (resolve owner index entry) := by
  unfold resolve
  refine StateRenames.get.bind fun loading => ?_
  have same : (loading.withBytes bytes).module.resolve owner index entry =
      loading.module.resolve owner index entry := rfl
  dsimp only
  rw [same]
  rcases loading.module.resolve owner index entry with defect | ⟨name, target⟩ | slot | _
  · exact keepsBytes_fail defect
  · refine (keepsBytes_register _).bind fun id => ?_
    refine (keepsBytes_update fun module => ?_).bind fun _ => .pure _
    unfold ObjectModule.nameImport
    split <;> rfl
  · exact .pure slot
  · exact keepsBytes_throw _

theorem keepsBytes_note (owner : ModuleId) (event : Event) :
    StateRenames id (Loading.withBytes bytes) id (note owner event) (note owner event) := by
  cases event with
  | opening header =>
    refine .bind (.modifies fun _ => ?_) fun _ => keepsBytes_update fun _ => ?_
    · rfl
    · rfl
  | memory index limits => exact .pure ()
  | segmentInfo index name alignment flags =>
    refine StateRenames.get.bind fun loading => .ite ?_ (keepsBytes_fail _)
    exact keepsBytes_update fun _ => by rfl
  | relocation target relocation =>
    refine StateRenames.get.bind fun loading => .ite ?_ (keepsBytes_fail _)
    exact keepsBytes_update fun _ => by rfl
  | symbol index entry =>
    exact (keepsBytes_resolve owner index entry).bind fun _ => keepsBytes_update fun _ => by rfl
  | _ =>
    unfold note
    exact keepsBytes_update fun _ => by rfl

end Loader

/-- The module with the section behind it: there is one more entry in its list of sections, and there
are more bytes. -/
def ObjectModule.withIgnored (module : ObjectModule) (ignored : IgnoredSection) : ObjectModule :=
  { module with
    bytes := module.bytes ++ ignored.bytes
    sections := module.sections.push
      { header := ignored.header module.sections.size module.bytes.length } }

/-- A file that is loaded is also loaded with the section behind it, and registers the same symbols. -/
theorem ObjectModule.load_append (ignored : IgnoredSection) {owner : ModuleId} {name : String}
    {bytes : Bytes} {start symbols : SymbolTable} {module : ObjectModule}
    (h : ObjectModule.load owner name bytes start = .ok module symbols) :
    ObjectModule.load owner name (bytes ++ ignored.bytes) start =
      .ok (module.withIgnored ignored) symbols := by
  obtain ⟨fault, last, run, rfl, rfl⟩ := load_run h
  obtain ⟨-, whole, mirrors⟩ := load_mirrors h
  have scanned : Transcript.ofBytes bytes = ⟨(Transcript.ofBytes bytes).events, none⟩ := by
    rw [← fault]
  have count : ((Transcript.ofBytes bytes).events.filterMap Event.header?).length =
      last.module.sections.size := by
    rw [← mirrors.headers, List.length_map, Array.length_toList]
  -- The events of the shorter file have the same effect, since the bytes of the module are not looked
  -- at. Then comes the opening of the section behind them.
  have run' : (Transcript.ofBytes bytes).events.forM (Loader.note owner)
      ⟨{ name, bytes := bytes ++ ignored.bytes }, start, 0⟩ =
        .ok () (last.withBytes (bytes ++ ignored.bytes)) := by
    have keeps : StateRenames id (Loading.withBytes (bytes ++ ignored.bytes)) id
        ((Transcript.ofBytes bytes).events.forM (Loader.note owner))
        (((Transcript.ofBytes bytes).events.map id).forM (Loader.note owner)) :=
      .forM fun event _ => Loader.keepsBytes_note owner event
    rw [List.map_id] at keeps
    exact (keeps _).1 () last run
  have each : (Transcript.ofBytes (bytes ++ ignored.bytes)).forEach (Loader.note owner)
      ⟨{ name, bytes := bytes ++ ignored.bytes }, start, 0⟩ = .ok ()
        { last with
          module := last.module.withIgnored ignored
          sectionStart := (ignored.header last.module.sections.size bytes.length).range.start } := by
    rw [Transcript.ofBytes_append ignored scanned, count]
    refine state_bind_eq_ok.2 ⟨(), _, forM_append_eq_ok.2 ⟨_, run', ?_⟩, rfl⟩
    rw [ObjectModule.withIgnored, whole]
    rfl
  unfold load
  rw [each]

end StaticLink
