import StaticLink.Link
import StaticLink.Proofs.IgnoredSections.Loading
import StaticLink.Proofs.IgnoredSections.Program

/-!
# Linking inputs with custom sections that are ignored

A custom section without a meaning changes nothing but the list of sections and the bytes of its own
module.

* `Program.encode_agree`, `Program.interface_agree`: the linked module of modules that agree.
* `ObjectModule.agrees_withIgnored`: a module agrees with itself with such a section behind it.
* `Session.Agrees`: sessions with modules that agree and the same symbols; `Session.Agrees.link`.
* `Session.KeepsAgreement`: steps that do the same in sessions that agree.
* `Session.add_ignored`: adding an input with such a section, and any link with it.
-/

namespace StaticLink

variable {others : List ObjectModule}

namespace Program

section

variable {program : Program} (alike : List.Forall₂ ObjectModule.Agrees program.modules others)
include alike

/-! ## Sections -/

/-- What is copied from the first section of a kind is the same if it is so for each module. -/
theorem copySections_agree {kind : SectionId} (known : kind ≠ .custom)
    {copy copy' : ModuleId → ObjectModule → Section → Except Error Bytes}
    (each : ∀ owner one two found, program.modules[owner]? = some one → one.Agrees two →
      one.section? kind = some found → copy' owner two found = copy owner one found) :
    (program.withModules others).copySections kind copy' = program.copySections kind copy := by
  refine congrArg (· >>= _) ?_
  apply mapM_of_forall₂ (forall₂_zipIdx alike)
  rintro ⟨one, owner⟩ ⟨two, place⟩ ⟨agrees, rfl, here⟩
  dsimp only
  rw [agrees.sections kind known]
  cases first : one.section? kind with
  | some found => exact each _ one two found here agrees first
  | none => rfl

theorem relocateSections_agree {kind : SectionId} (known : kind ≠ .custom) :
    (program.withModules others).relocateSections kind = program.relocateSections kind := by
  apply copySections_agree alike known
  intro owner one two found here agrees first
  -- The range that is copied is the payload of the first section of its kind.
  apply relocate_agree alike
  intro other two' here' agrees'
  obtain rfl := Option.some.inj (here.symm.trans here')
  exact agrees'.payloads kind found known first

theorem typeEntries_agree : (program.withModules others).typeEntries = program.typeEntries := by
  refine congrArg (· >>= _) (copySections_agree alike (by decide) ?_)
  intro owner one two found _ agrees first
  exact agrees.payloads .types found (by decide) first

theorem functionTypes_agree :
    (program.withModules others).functionTypes = program.functionTypes := by
  have synthetic : (program.withModules others).syntheticFunctionType =
      program.syntheticFunctionType := by
    funext id
    unfold syntheticFunctionType withModules
    simp only [Imports.ofFunction_agree alike program.symbols]
  unfold functionTypes
  rw [synthetic]
  refine bind_congr fun types => congrArg (fun copied : List Nat => copied.mapM inWord >>= _) ?_
  apply flatMap_of_forall₂ (forall₂_zipIdx alike)
  rintro ⟨one, owner⟩ ⟨two, place⟩ ⟨agrees, rfl, -⟩
  dsimp only
  have base : (program.withModules others).typeBase place = program.typeBase place :=
    typeBase_agree alike program.symbols place
  rw [agrees.functions, base]

theorem functionCount_agree : (program.withModules others).functionCount = program.functionCount :=
  congrArg (_ + ·) (countAll_agree alike fun _ _ agrees =>
    agrees.field (·.functions.size) fun _ _ _ => rfl)

theorem globalCount_agree : (program.withModules others).globalCount = program.globalCount :=
  congrArg (_ + ·) (countAll_agree alike fun _ _ agrees =>
    agrees.field (·.globals.size) fun _ _ _ => rfl)

theorem globalEntries_agree :
    (program.withModules others).globalEntries = program.globalEntries := by
  unfold globalEntries
  rw [relocateSections_agree alike (by decide)]
  rfl

theorem tableFunctions_agree :
    (program.withModules others).tableFunctions = program.tableFunctions := by
  unfold tableFunctions
  simp only [inputFunctionIndex_agree alike]
  refine congrArg (List.mapM _) ?_
  apply flatMap_of_forall₂ (forall₂_zipIdx alike)
  rintro ⟨one, owner⟩ ⟨two, place⟩ ⟨agrees, rfl, -⟩
  dsimp only
  rw [agrees.elementSegments]

theorem elementEntries_agree :
    (program.withModules others).elementEntries = program.elementEntries := by
  unfold elementEntries
  rw [tableFunctions_agree alike, elementCount_agree alike]

theorem codeCount_agree : (program.withModules others).codeCount = program.codeCount :=
  congrArg (_ + ·) (countAll_agree alike fun _ _ agrees => agrees.declaredCount (by decide))

theorem codeEntries_agree : (program.withModules others).codeEntries = program.codeEntries := by
  have indices : (program.withModules others).functionIndex = program.functionIndex :=
    funext (functionIndex_agree alike)
  have bodies : (program.withModules others).syntheticBody = program.syntheticBody := by
    funext id
    unfold syntheticBody
    rw [indices]
    rfl
  unfold codeEntries
  simp only [bodies, relocateSections_agree alike (by decide : SectionId.code ≠ .custom)]
  rfl

theorem chunkContents_agree (chunk : Chunk) :
    (program.withModules others).chunkContents chunk = program.chunkContents chunk := by
  unfold chunkContents
  apply bind_input_agree alike
  intro one two here agrees
  rw [agrees.sections .data (by decide), agrees.dataSegments]
  split
  · next found segment _ listed =>
    -- The range that is copied is the one of a data segment.
    apply relocate_agree alike
    intro other two' here' agrees'
    obtain rfl := Option.some.inj (here.symm.trans here')
    exact agrees'.data segment (Array.mem_of_getElem? listed)
  · rfl

theorem dataEntries_agree : (program.withModules others).dataEntries = program.dataEntries := by
  have chunks (size written : Nat) (chunks : List Chunk) :
      (program.withModules others).fillChunks size written chunks =
        program.fillChunks size written chunks := by
    induction chunks generalizing written with
    | nil => rfl
    | cons chunk rest ih =>
      unfold fillChunks
      simp only [chunkContents_agree alike, ih]
  unfold dataEntries dataEntry segmentContents
  simp only [chunks]
  rfl

/-- The linked module is the same. -/
theorem encode_agree (interface : Interface) :
    (program.withModules others).encode interface = program.encode interface := by
  have types : (program.withModules others).typeCount = program.typeCount :=
    typeCount_agree alike program.symbols
  unfold encode writeDeclarations writeContents tableLimits elementSegmentCount
  simp only [types, typeEntries_agree alike, functionCount_agree alike,
    functionEntries, functionTypes_agree alike, globalCount_agree alike, globalEntries_agree alike,
    elementCount_agree alike, elementEntries_agree alike, codeCount_agree alike,
    codeEntries_agree alike, dataEntries_agree alike]
  rfl

/-! ## The interface -/

theorem functionNames_agree :
    (program.withModules others).functionNames = program.functionNames := by
  have synthetic : (program.withModules others).syntheticNames = program.syntheticNames := by
    unfold syntheticNames
    simp only [functionIndex_agree alike]
    rfl
  unfold functionNames
  rw [synthetic]
  refine bind_congr fun names => congrArg (· >>= _) ?_
  apply mapM_of_forall₂ (forall₂_zipIdx alike)
  rintro ⟨one, owner⟩ ⟨two, place⟩ ⟨agrees, rfl, -⟩
  have given : two.functionNames = one.functionNames :=
    agrees.field (·.functionNames) fun _ _ _ => rfl
  dsimp only [inputNames]
  rw [agrees.functionImports, given, functionBase_agree alike]

theorem interface_agree (options : Options) :
    (program.withModules others).interface options = program.interface options := by
  unfold interface exports entryPointExports flaggedExports requestedExports start
  unfold functionExport
  simp only [functionIndex_agree alike, globalIndex_agree alike, functionNames_agree alike]
  rfl

end

end Program

/-! ## Modules with such a section -/

/-- What lies in a file also lies there with more bytes behind it. -/
theorem Bytes.slice?_append {file later : Bytes} {span : Span} (order : span.start ≤ span.stop)
    (within : span.stop ≤ file.length) : (file ++ later).slice? span = file.slice? span := by
  obtain ⟨piece, found⟩ := exists_slice? order within
  have first : span.start ≤ file.length := Nat.le_trans order within
  rw [slice?, if_pos order] at found
  obtain ⟨⟨start, rest⟩, split, rfl⟩ := Option.map_eq_some_iff.1 found
  obtain ⟨ahead, size⟩ := append_of_splitExactly? split
  rw [slice?, if_pos order, List.drop_append_of_le_length first, ahead, List.append_assoc, ← size,
    splitExactly?_append, slice?, if_pos order, ahead, ← size, splitExactly?_append]
  rfl

theorem ObjectModule.agrees_withIgnored {module : ObjectModule} (laidOut : module.LaidOut)
    (ignored : IgnoredSection) : module.Agrees (module.withIgnored ignored) where
  rest := rfl
  sections id known := by
    have other : (SectionId.custom == id) = false := beq_false_of_ne known.symm
    unfold section? withIgnored
    rw [Array.find?_push]
    simp [IgnoredSection.header, other]
  payloads id found known first := by
    have place := laidOut.sections found (Array.mem_of_find?_eq_some first)
    have within : found.header.payload.stop ≤ module.bytes.length :=
      Nat.le_trans (Nat.le_of_eq place.payload_stop) place.stop_le
    exact congrArg existing (Bytes.slice?_append place.payload_le within)
  data segment member := by
    have place := laidOut.data.inside (List.mem_map_of_mem member.val)
    exact congrArg existing (Bytes.slice?_append place.2.1 place.2.2)

/-! ## Sessions that agree -/

/-- The second session has modules that agree with those of the first one, and the same symbols. -/
structure Session.Agrees (one two : Session) : Prop where
  modules : List.Forall₂ ObjectModule.Agrees one.modules two.modules
  symbols : two.symbols = one.symbols

/-- Two steps give the same answer or the same error, and leave sessions that agree. -/
inductive Session.SameResult {α : Type} :
    EStateM.Result Error Session α → EStateM.Result Error Session α → Prop
  | ok (value : α) {one two : Session} (agrees : one.Agrees two) :
    SameResult (.ok value one) (.ok value two)
  | error (cause : Error) {one two : Session} (agrees : one.Agrees two) :
    SameResult (.error cause one) (.error cause two)

/-- What the session is after these inputs were given to it, whether or not it refused some. -/
def Session.offer (inputs : List (String × Bytes)) (session : Session) : Session :=
  inputs.foldl (fun session (name, bytes) =>
    match Session.add name bytes session with
    | .ok _ after => after
    | .error _ after => after) session

namespace Session.Agrees

variable {one two : Session}

theorem refl (session : Session) : session.Agrees session :=
  ⟨List.forall₂_same.2 fun module _ => .refl module, rfl⟩

/-- Their programs differ in the modules alone. -/
theorem bind_ofSession {α : Type} (agrees : one.Agrees two) (base : Nat)
    {next next' : Program → Except Error α}
    (same : ∀ program, program.modules = one.modules →
      next' (program.withModules two.modules) = next program) :
    (Program.ofSession two base >>= next') = (Program.ofSession one base >>= next) := by
  unfold Program.ofSession
  simp only [DataLayout.ofModules_agree agrees.modules, agrees.symbols,
    SymbolTable.complete_agree agrees.modules, typeCount_agree agrees.modules,
    Imports.ofSymbols_agree agrees.modules, bind_assoc]
  refine bind_congr fun layout => bind_congr fun stackTop => ?_
  refine bind_congr fun symbols => bind_congr fun _ => bind_congr fun imports => ?_
  let program : Program := ⟨one.modules, symbols, layout, stackTop, imports⟩
  have types : (program.withModules two.modules).functionTypes = program.functionTypes :=
    Program.functionTypes_agree agrees.modules
  exact congrArg₂ (· >>= ·) types (funext fun _ => same program rfl)

/-- They are linked to the same bytes, or for the same error to none. -/
theorem link (agrees : one.Agrees two) (options : Options) :
    two.link options = one.link options := by
  apply agrees.bind_ofSession
  intro program modules
  have alike : List.Forall₂ ObjectModule.Agrees program.modules two.modules := by
    rw [modules]
    exact agrees.modules
  rw [Program.interface_agree alike]
  exact bind_congr (Program.encode_agree alike)

end Session.Agrees

namespace Session

variable {α β : Type} {one two : Session}

/-- In sessions that agree, the step gives the same answer or the same error. -/
def KeepsAgreement (step : EStateM Error Session α) : Prop :=
  ∀ one two, one.Agrees two → SameResult (step one) (step two)

theorem KeepsAgreement.bind {step : EStateM Error Session α}
    {next : α → EStateM Error Session β} (first : KeepsAgreement step)
    (second : ∀ value, KeepsAgreement (next value)) : KeepsAgreement (step >>= next) := by
  intro one two agrees
  have same := first one two agrees
  show SameResult (EStateM.bind step next one) (EStateM.bind step next two)
  unfold EStateM.bind
  generalize step one = result at same ⊢
  generalize step two = result' at same ⊢
  cases same with
  | ok value agrees => exact second value _ _ agrees
  | error cause agrees => exact .error cause agrees

/-- An input is added to both or refused by both. -/
theorem keepsAgreement_add (name : String) (bytes : Bytes) :
    KeepsAgreement (Session.add name bytes) := by
  intro one two agrees
  unfold Session.add
  rw [agrees.modules.length_eq, agrees.symbols]
  dsimp only
  cases ObjectModule.load two.modules.length name bytes one.symbols with
  | ok module symbols =>
    have modules : List.Forall₂ ObjectModule.Agrees (one.modules ++ [module])
        (two.modules ++ [module]) :=
      List.rel_append agrees.modules (.cons (.refl module) .nil)
    exact .ok _ ⟨modules, rfl⟩
  | error cause symbols =>
    have agrees : Agrees { one with symbols } { two with symbols } := ⟨agrees.modules, rfl⟩
    exact .error _ agrees

theorem keepsAgreement_addAll (inputs : List (String × Bytes)) :
    KeepsAgreement (Session.addAll inputs) := by
  induction inputs with
  | nil => exact fun _ _ agrees => .ok () agrees
  | cons input rest ih =>
    show KeepsAgreement (discard (Session.add input.1 input.2) >>= fun _ => Session.addAll rest)
    rw [discard_eq_bind]
    refine .bind (.bind (keepsAgreement_add _ _) fun _ => ?_) fun _ => ih
    exact fun _ _ agrees => .ok () agrees

theorem Agrees.linkWith (agrees : one.Agrees two) (inputs : List (String × Bytes))
    (options : Options) : two.linkWith inputs options = one.linkWith inputs options := by
  have same := keepsAgreement_addAll inputs one two agrees
  unfold Session.linkWith
  generalize Session.addAll inputs one = result at same ⊢
  generalize Session.addAll inputs two = result' at same ⊢
  cases same with
  | ok _ agrees => exact agrees.link options
  | error cause agrees => rfl

theorem Agrees.offer (agrees : one.Agrees two) (inputs : List (String × Bytes)) :
    (one.offer inputs).Agrees (two.offer inputs) := by
  induction inputs generalizing one two with
  | nil => exact agrees
  | cons input rest ih =>
    apply ih
    have same := keepsAgreement_add input.1 input.2 one two agrees
    dsimp only
    generalize Session.add input.1 input.2 one = result at same ⊢
    generalize Session.add input.1 input.2 two = result' at same ⊢
    cases same with
    | ok _ agrees => exact agrees
    | error _ agrees => exact agrees

/-! ## Inputs with such a section -/

theorem linkWith_append {inputs later : List (String × Bytes)} {options : Options}
    {before after : Session} (run : addAll inputs before = .ok () after) :
    before.linkWith (inputs ++ later) options = after.linkWith later options := by
  unfold linkWith
  rw [addAll_append run]

/-- What an input that is accepted does for what is linked with those behind it. -/
theorem linkWith_cons {name : String} {bytes : Bytes} {later : List (String × Bytes)}
    {options : Options} {before after : Session} {owner : ModuleId}
    (accepted : add name bytes before = .ok owner after) :
    before.linkWith ((name, bytes) :: later) options = after.linkWith later options := by
  have one : discard (add name bytes) before = .ok () after := discard_eq_ok.2 ⟨owner, accepted⟩
  have run : addAll [(name, bytes)] before = .ok () after := state_bind_eq_ok.2 ⟨(), after, one, rfl⟩
  exact linkWith_append run

/-- An input that is accepted is also accepted with the section behind it. The module has one more
section and the longer bytes, the symbols are the same, and so is what is linked in the end: the same
bytes, or none for the same error. -/
theorem add_ignored (ignored : IgnoredSection) {name : String} {bytes : Bytes}
    {before after : Session} {owner : ModuleId} (accepted : add name bytes before = .ok owner after) :
    ∃ module other, after.modules = before.modules ++ [module] ∧ module.bytes = bytes ∧
      add name (bytes ++ ignored.bytes) before = .ok owner other ∧
      other = { after with modules := before.modules ++ [module.withIgnored ignored] } ∧
      (∀ later options, (other.offer later).link options = (after.offer later).link options) ∧
      ∀ earlier later options, addAll earlier .empty = .ok () before →
        StaticLink.link (earlier ++ (name, bytes ++ ignored.bytes) :: later) options =
          StaticLink.link (earlier ++ (name, bytes) :: later) options := by
  have one : discard (add name bytes) before = .ok () after := discard_eq_ok.2 ⟨owner, accepted⟩
  obtain ⟨module, loaded, modules⟩ := add_eq_ok one
  let other : Session :=
    { after with modules := before.modules ++ [module.withIgnored ignored] }
  have place : owner = before.modules.length := by
    unfold add at accepted
    dsimp only at accepted
    rw [loaded] at accepted
    injection accepted with place
    exact place.symm
  have accepted' : add name (bytes ++ ignored.bytes) before = .ok owner other := by
    unfold add
    dsimp only
    rw [ObjectModule.load_append ignored loaded, place]
  -- The modules before it are the same, and the last ones agree, since all that is looked at lies in
  -- the file that was there before.
  have agrees : after.Agrees other := by
    have last : module.Agrees (module.withIgnored ignored) :=
      ObjectModule.agrees_withIgnored (ObjectModule.load_laidOut loaded) ignored
    have all : List.Forall₂ ObjectModule.Agrees (before.modules ++ [module])
        (before.modules ++ [module.withIgnored ignored]) :=
      List.rel_append (Agrees.refl before).modules (.cons last .nil)
    rw [← modules] at all
    exact ⟨all, rfl⟩
  have whole : module.bytes = bytes := (ObjectModule.load_mirrors loaded).2.1
  refine ⟨module, other, modules, whole, accepted', rfl, ?_, ?_⟩
  · intro later options
    exact (agrees.offer later).link options
  · intro earlier later options run
    show empty.linkWith _ options = empty.linkWith _ options
    rw [linkWith_append run, linkWith_append run, linkWith_cons accepted, linkWith_cons accepted']
    exact agrees.linkWith later options

end Session

/-- A section of relocations for debuggers, with its size in more bytes than that takes. -/
def debugRelocations : IgnoredSection where
  size := ⟨20, 5, by decide, by decide, by decide, by decide⟩
  name :=
    { size := ⟨17, 1, by decide, by decide, by decide, by decide⟩
      text := "reloc..debug_info"
      counted := by decide +kernel }
  payload := [4, 0]
  filled := by decide +kernel
  notLinking := by decide
  notNames := by decide
  notRelocations := fun _ => by decide +kernel

/-- An input with a call is accepted with such a section behind it, and linked to the same bytes. -/
theorem add_ignored_debugRelocations :
    ∃ owner after module other, Session.add importer.1 importer.2 .empty = .ok owner after ∧
      after.modules = [module] ∧ module.bytes = importer.2 ∧
      Session.add importer.1 (importer.2 ++ debugRelocations.bytes) .empty = .ok owner other ∧
      other = { after with modules := [module.withIgnored debugRelocations] } ∧
      link [(importer.1, importer.2 ++ debugRelocations.bytes)] {} = .ok linkedImporter := by
  have succeeds : (Session.add importer.1 importer.2).run' .empty = some 0 := by decide +kernel
  have linked : link [importer] {} = .ok linkedImporter := by decide +kernel
  rcases accepted : Session.add importer.1 importer.2 .empty with ⟨owner, after⟩ | ⟨error, after⟩
  · obtain ⟨module, other, modules, whole, accepted', same, -, links⟩ :=
      Session.add_ignored debugRelocations accepted
    have linked' := (links [] [] {} rfl).trans linked
    exact ⟨owner, after, module, other, rfl, modules, whole, accepted', same, linked'⟩
  · delta EStateM.run' EStateM.run at succeeds
    rw [accepted] at succeeds
    cases succeeds

end StaticLink
