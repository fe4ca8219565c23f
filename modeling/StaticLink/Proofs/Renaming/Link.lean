import StaticLink.Link
import StaticLink.Proofs.Renaming.Relocation

/-!
# Linking inputs under other names

The names of inputs are for diagnostics only.

* `Program.renames_encode`: the linked module is written in the same way.
* `renames_link`: a whole link.
* `link_sameApartFromNames`: two links of the same contents under any names.
-/

namespace StaticLink

variable {f : String → String}

namespace Program

variable (program : Program)

/-! ## Sections -/

theorem renames_copySections (kind : SectionId)
    {copy copy' : ModuleId → ObjectModule → Section → Except Error Bytes}
    (each : ∀ owner module found, Renames f id (copy owner module found)
      (copy' owner (module.rename f) found)) :
    Renames f id (program.copySections kind copy) ((program.rename f).copySections kind copy') := by
  unfold copySections
  rw [zipIdx_rename]
  refine (Renames.mapM_id fun (module, owner) _ => ?_).map fun _ => rfl
  have same : (module.rename f).section? kind = module.section? kind := rfl
  simp only [Prod.map, same]
  cases module.section? kind with
  | some found => exact each owner module found
  | none => exact .pure []

theorem renames_relocateSections (kind : SectionId) :
    Renames f id (program.relocateSections kind) ((program.rename f).relocateSections kind) :=
  program.renames_copySections kind fun owner _ found =>
    program.renames_relocate owner found found.header.payload

theorem renames_typeEntries :
    Renames f id program.typeEntries (program.rename f).typeEntries := by
  have same : (program.rename f).symbols.callsConstructors = program.symbols.callsConstructors :=
    program.symbols.callsConstructors_rename
  unfold typeEntries
  rw [same]
  exact (program.renames_copySections .types fun _ module found =>
    renames_existing (module.bytes.slice? found.header.payload)).map fun _ => rfl

theorem renames_functionEntries :
    Renames f id program.functionEntries (program.rename f).functionEntries :=
  program.renames_functionTypes.map fun _ => rfl

theorem functionCount_rename : (program.rename f).functionCount = program.functionCount :=
  congrArg (_ + ·) (countAll_rename (fun _ => rfl) program.modules)

theorem tableLimits_rename : (program.rename f).tableLimits = program.tableLimits := by
  unfold tableLimits
  rw [elementCount_rename]

theorem syntheticGlobals_rename :
    (program.rename f).syntheticGlobals = program.syntheticGlobals := by
  unfold syntheticGlobals
  refine congrArg (List.filterMap · program.symbols.syntheticGlobals) (funext fun global => ?_)
  have target : ((program.rename f).symbols.records[global]?).map (·.target) =
      (program.symbols.records[global]?).map (·.target) := by
    rw [show (program.rename f).symbols.records[global]? = _ from
      program.symbols.getElem?_rename global, Option.map_map]
    rfl
  rw [target]

theorem globalCount_rename : (program.rename f).globalCount = program.globalCount := by
  unfold globalCount
  rw [syntheticGlobals_rename]
  exact congrArg (_ + ·) (countAll_rename (fun _ => rfl) program.modules)

theorem renames_globalEntries :
    Renames f id program.globalEntries (program.rename f).globalEntries := by
  unfold globalEntries
  rw [syntheticGlobals_rename]
  exact (program.renames_relocateSections .globals).map fun _ => rfl

theorem renames_elementEntries :
    Renames f id program.elementEntries (program.rename f).elementEntries := by
  have functions : Renames f id program.tableFunctions (program.rename f).tableFunctions := by
    unfold tableFunctions
    rw [zipIdx_rename, List.flatMap_map]
    exact .mapM_items fun item _ => program.renames_inputFunctionIndex item.1 item.2
  unfold elementEntries
  rw [elementCount_rename]
  exact functions.map fun _ => rfl

theorem elementSegmentCount_rename :
    (program.rename f).elementSegmentCount = program.elementSegmentCount := by
  unfold elementSegmentCount
  rw [elementCount_rename]

theorem renames_syntheticBody (function : SymbolId) :
    Renames f id (program.syntheticBody function)
      ((program.rename f).syntheticBody function) := by
  refine (program.symbols.renames_get function).bind fun symbol => ?_
  obtain ⟨name, flags, context, target⟩ := symbol
  rcases target with (⟨_, _⟩ | ⟨_, _⟩ | (initializers | ⟨_, _⟩)) | _ | _
  case function.synthesized.constructorCaller =>
    exact (Renames.mapM_items fun called _ => program.renames_functionIndex called).map
      fun _ => rfl
  case function.synthesized.trapStub => exact .pure _
  all_goals exact .throw _

theorem codeCount_rename : (program.rename f).codeCount = program.codeCount :=
  congrArg (_ + ·) (countAll_rename (fun _ => rfl) program.modules)

theorem renames_codeEntries :
    Renames f id program.codeEntries (program.rename f).codeEntries :=
  (Renames.mapM_items fun function _ => program.renames_syntheticBody function).bind fun _ =>
    (program.renames_relocateSections .code).map fun _ => rfl

theorem renames_chunkContents (chunk : Chunk) :
    Renames f id (program.chunkContents chunk) ((program.rename f).chunkContents chunk) := by
  refine (program.renames_input chunk.owner).bind fun module => ?_
  have sections : (module.rename f).section? .data = module.section? .data := rfl
  have segments : (module.rename f).dataSegments = module.dataSegments := rfl
  rw [sections, segments]
  split
  · exact program.renames_relocate _ _ _
  · exact .throw _

theorem renames_fillChunks (size written : Nat) (chunks : List Chunk) :
    Renames f id (program.fillChunks size written chunks)
      ((program.rename f).fillChunks size written chunks) := by
  induction chunks generalizing written with
  | nil => exact .pure _
  | cons chunk rest ih =>
    exact (program.renames_chunkContents chunk).bind fun contents =>
      (ih (chunk.offset + contents.length)).map fun _ => rfl

theorem renames_dataEntries :
    Renames f id program.dataEntries (program.rename f).dataEntries := by
  refine (Renames.mapM_items fun segment _ => ?_).map fun _ => rfl
  exact (program.renames_fillChunks segment.size 0 segment.chunks.toList).map fun _ => rfl

/-! ## Exports, start and names -/

theorem definedFunction?_rename (name : String) :
    (program.rename f).definedFunction? name = program.definedFunction? name := by
  refine congrArg (Option.filter · (program.symbols.lookup name)) (funext fun found => ?_)
  show Option.any _ (program.symbols.rename f).records[found]? = _
  rw [SymbolTable.getElem?_rename, Option.any_map]
  rfl

theorem renames_functionExport (name : String) (function : SymbolId) :
    Renames f id (program.functionExport name function)
      ((program.rename f).functionExport name function) :=
  (program.renames_functionIndex function).map fun _ => rfl

theorem flaggedSymbols_rename :
    (program.rename f).flaggedSymbols =
      program.flaggedSymbols.map (Prod.map id (Symbol.rename f)) := by
  have symbols : (program.rename f).symbols.symbols =
      program.symbols.symbols.map (Prod.map id (Symbol.rename f)) :=
    program.symbols.symbols_rename
  unfold flaggedSymbols
  rw [symbols, List.filter_map]
  rfl

theorem renames_flaggedExports :
    Renames f id program.flaggedExports (program.rename f).flaggedExports := by
  unfold flaggedExports
  rw [flaggedSymbols_rename]
  refine .mapM_id fun (function, symbol) _ => .ite ?_ ?_
  · exact (program.renames_globalIndex function).map fun _ => rfl
  · exact program.renames_functionExport symbol.name function

theorem renames_requestedExports (names : List String) :
    Renames f id (program.requestedExports names) ((program.rename f).requestedExports names) := by
  refine .mapM_items fun name _ => ?_
  rw [definedFunction?_rename]
  cases program.definedFunction? name with
  | some function => exact program.renames_functionExport name function
  | none => exact .throw _

theorem renames_exports (names : List String) :
    Renames f id (program.exports names) ((program.rename f).exports names) := by
  have entryPoint : Renames f id program.entryPointExports
      (program.rename f).entryPointExports := by
    unfold entryPointExports
    rw [definedFunction?_rename]
    exact .mapM_items fun function _ => program.renames_functionExport entryPointName function
  exact entryPoint.bind fun _ => program.renames_flaggedExports.bind fun _ =>
    (program.renames_requestedExports names).map fun _ => rfl

theorem renames_start : Renames f id program.start (program.rename f).start := by
  have same : (program.rename f).symbols.lookup entryPointName =
      program.symbols.lookup entryPointName := rfl
  unfold start
  rw [same]
  cases program.symbols.lookup entryPointName with
  | none => exact .pure none
  | some function =>
    refine (program.symbols.renames_get function).bind fun symbol => ?_
    have target : (symbol.rename f).target = symbol.target := rfl
    have weak : (symbol.rename f).isWeak = symbol.isWeak := rfl
    rw [target, weak]
    split
    · exact (program.renames_functionIndex function).map fun _ => rfl
    · exact .pure none

theorem renames_functionNames :
    Renames f id program.functionNames (program.rename f).functionNames := by
  have synthetic : Renames f id program.syntheticNames (program.rename f).syntheticNames :=
    .mapM_items fun function _ => (program.symbols.renames_get function).bind fun _ =>
      (program.renames_functionIndex function).map fun _ => rfl
  have given (module : ObjectModule) (owner : ModuleId) : Renames f id
      (program.inputNames owner module) ((program.rename f).inputNames owner (module.rename f)) := by
    refine Renames.mapM_items fun (index, name) _ => ?_
    rw [functionBase_rename]
    exact (Renames.inWord _).map fun _ => rfl
  unfold functionNames
  rw [zipIdx_rename]
  exact synthetic.bind fun names =>
    (Renames.mapM_id fun (module, owner) _ => given module owner).map fun _ => rfl

theorem renames_interface (options : Options) :
    Renames f id (program.interface options) ((program.rename f).interface options) := by
  refine (program.renames_exports options.exports).bind fun exports => ?_
  refine .ite_bind program.renames_start (.pure none) fun start => ?_
  exact .ite_bind (program.renames_functionNames.map fun _ => rfl) (.pure none) fun _ => .pure _

/-! ## The whole module -/

theorem renames_closeSize (writer : Writer) (field : SizeField) :
    Renames f id (writer.closeSize field) (writer.closeSize field) :=
  .ite (.ok _) (.error _)

theorem renames_addVector (writer : Writer) (kind : SectionId) (count : UInt32)
    {entries entries' : Except Error Bytes} (same : Renames f id entries entries') :
    Renames f id (writer.addVector kind count entries) (writer.addVector kind count entries') :=
  .ite (.pure writer) (same.bind fun _ => renames_closeSize _ _)

theorem renames_writeDeclarations (interface : Interface) (writer : Writer) :
    Renames f id (program.writeDeclarations interface writer)
      ((program.rename f).writeDeclarations interface writer) := by
  unfold writeDeclarations
  have types : (program.rename f).typeCount = program.typeCount :=
    StaticLink.typeCount_rename program.modules program.symbols
  rw [types, functionCount_rename, tableLimits_rename, globalCount_rename]
  refine (renames_addVector _ _ _ program.renames_typeEntries).bind fun types => ?_
  refine (renames_addVector types _ _ (.ok program.importEntries)).bind fun imports => ?_
  refine (renames_addVector imports _ _ program.renames_functionEntries).bind fun functions => ?_
  refine (renames_addVector functions _ _ (.ok _)).bind fun tables => ?_
  refine (renames_addVector tables _ _ (.ok program.memoryLimits.encode)).bind fun memories => ?_
  refine (renames_addVector memories _ _ program.renames_globalEntries).bind fun globals => ?_
  exact renames_addVector globals _ _ (.ok _)

theorem renames_writeContents (writer : Writer) :
    Renames f id (program.writeContents writer) ((program.rename f).writeContents writer) := by
  unfold writeContents
  rw [elementSegmentCount_rename, codeCount_rename]
  refine (renames_addVector writer _ _ program.renames_elementEntries).bind fun elements => ?_
  refine (renames_addVector elements _ _ program.renames_codeEntries).bind fun code => ?_
  exact renames_addVector code _ _ program.renames_dataEntries

theorem renames_writeFunctionNames (writer : Writer) (names : List (UInt32 × String)) :
    Renames f id (writeFunctionNames writer names) (writeFunctionNames writer names) :=
  (renames_closeSize _ _).bind fun _ => renames_closeSize _ _

theorem renames_encode (interface : Interface) :
    Renames f id (program.encode interface) ((program.rename f).encode interface) := by
  unfold encode
  rw [codeCount_rename]
  refine (Renames.inWord _).bind fun _ => ?_
  refine (program.renames_writeDeclarations interface _).bind fun declared => ?_
  -- What follows the start function is the same with and without one.
  cases interface.start with
  | none =>
    refine (program.renames_writeContents declared).bind fun written => ?_
    cases interface.functionNames with
    | some names => exact (renames_writeFunctionNames written names).map fun _ => rfl
    | none => exact .pure _
  | some function =>
    refine (renames_closeSize _ _).bind fun started => ?_
    refine (program.renames_writeContents started).bind fun written => ?_
    cases interface.functionNames with
    | some names => exact (renames_writeFunctionNames written names).map fun _ => rfl
    | none => exact .pure _

end Program

/-! ## Links -/

section

variable (fixed : f Symbol.linkerContext = Symbol.linkerContext)
include fixed

theorem Session.renames_link (session : Session) (options : Options) :
    Renames f id (session.link options) ((session.rename f).link options) :=
  (Program.renames_ofSession fixed session _).bind fun program =>
    (program.renames_interface options).bind fun interface => program.renames_encode interface

/-- A link goes the same way where inputs have other names. -/
theorem renames_link (inputs : List (String × Bytes)) (options : Options) :
    Renames f id (link inputs options) (link (inputs.map (Prod.map f id)) options) := by
  obtain ⟨succeeds, fails⟩ := Session.addAll_rename inputs
  unfold link
  rcases run : Session.addAll inputs .empty with ⟨_, session⟩ | ⟨cause, session⟩
  · rw [succeeds session run]
    exact session.renames_link fixed options
  · rw [fails cause session run]
    exact .error cause

end

/-! ## Links of the same contents -/

/-- The error without the names of inputs. What stays is its kind, the symbols that it tells and,
where an input is malformed, the defect and its place. -/
def Error.nameless (error : Error) : Error := error.rename fun _ => Symbol.linkerContext

/-- The defect of an input that lies behind the error and its place in the input, also when the
error names the input. -/
def Error.fault? : Error → Option Fault
  | .malformed fault => some fault
  | .input _ cause => cause.fault?
  | _ => none

theorem Error.fault?_rename (error : Error) : (error.rename f).fault? = error.fault? := by
  induction error with
  | input name cause ih => exact ih
  | _ => rfl

/-- None of the inputs is refused when they are added one after the other. -/
def Session.Takes (inputs : List (String × Bytes)) : Prop :=
  ∃ session, addAll inputs .empty = .ok () session

/-- What two links of the same contents have in common, whatever the inputs are called. -/
structure SameApartFromNames (first second : List (String × Bytes)) (options : Options) :
    Prop where
  /-- If one succeeds, the other one does, with the same bytes. -/
  succeeds : ∀ output, link first options = .ok output ↔ link second options = .ok output
  /-- If one fails, the other one does, with the same error apart from the names of inputs, and
  with the same defect at the same place if an input is malformed. -/
  fails : ∀ cause, link first options = .error cause →
    ∃ cause', link second options = .error cause' ∧ cause'.nameless = cause.nameless ∧
      cause'.fault? = cause.fault?
  /-- The first inputs are taken by both or by neither, so that the same one is refused, if any. -/
  takes : ∀ count, Session.Takes (first.take count) ↔ Session.Takes (second.take count)

theorem Session.takes_rename (inputs : List (String × Bytes)) :
    Takes (inputs.map (Prod.map f id)) ↔ Takes inputs := by
  obtain ⟨succeeds, fails⟩ := addAll_rename inputs
  constructor
  · rintro ⟨session', taken⟩
    rcases run : addAll inputs .empty with ⟨_, session⟩ | ⟨cause, session⟩
    · exact ⟨session, run⟩
    · rw [fails cause session run] at taken
      cases taken
  · rintro ⟨session, taken⟩
    exact ⟨session.rename f, succeeds session taken⟩

/-- The names of inputs are for diagnostics only: under any two assignments of names, which may
repeat names, two links of the same contents succeed with the same bytes or fail at the same input,
or behind the last one, with the same error apart from these names. -/
theorem link_sameApartFromNames (first second : List (String × Bytes)) (options : Options)
    (same : first.map (·.2) = second.map (·.2)) : SameApartFromNames first second options := by
  let erase : String → String := fun _ => Symbol.linkerContext
  -- Without their names both are the same inputs.
  have erased : first.map (Prod.map erase id) = second.map (Prod.map erase id) := by
    have contents (inputs : List (String × Bytes)) : inputs.map (Prod.map erase id) =
        (inputs.map (·.2)).map (Symbol.linkerContext, ·) := by
      rw [List.map_map]
      rfl
    rw [contents, contents, same]
  have left : Renames erase id (link first options) _ := renames_link rfl first options
  have right : Renames erase id (link second options) _ := renames_link rfl second options
  have takes (inputs : List (String × Bytes)) :
      Session.Takes (inputs.map (Prod.map erase id)) ↔ Session.Takes inputs :=
    Session.takes_rename inputs
  rw [erased] at left
  obtain ⟨succeeds, fails⟩ := left.agree right
  refine ⟨fun output => ⟨succeeds output, (right.agree left).1 output⟩, ?_, ?_⟩
  · intro cause failed
    obtain ⟨cause', failed', nameless⟩ := fails cause failed
    refine ⟨cause', failed', nameless, ?_⟩
    calc cause'.fault? = (cause'.rename erase).fault? := cause'.fault?_rename.symm
      _ = (cause.rename erase).fault? := by rw [nameless]
      _ = cause.fault? := cause.fault?_rename
  · intro count
    rw [← takes (first.take count), ← takes (second.take count), List.map_take, List.map_take,
      erased]

/-- An object file with a strong definition of the function `f`. -/
def strongDefinition : Bytes :=
  [0, 97, 115, 109, 1, 0, 0, 0, 1, 4, 1, 96, 0, 0, 3, 2, 1, 0, 10, 4, 1, 2, 0, 11, 0, 17, 7, 108,
   105, 110, 107, 105, 110, 103, 2, 8, 6, 1, 0, 0, 0, 1, 102]

/-- Two inputs with the same strong definition. -/
def clash : List (String × Bytes) :=
  [("first.o", strongDefinition), ("second.o", strongDefinition)]

/-- They clash under one name as they do under two. -/
theorem link_clash_sameApartFromNames :
    link clash {} = .error (.input "second.o" (.symbolConflict "f" "first.o" "second.o")) ∧
      SameApartFromNames clash (clash.map fun input => ("same.o", input.2)) {} :=
  ⟨by decide +kernel, link_sameApartFromNames clash _ {} rfl⟩

end StaticLink
