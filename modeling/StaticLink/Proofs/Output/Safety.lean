import StaticLink.Proofs.Output.Memory
import StaticLink.Proofs.Program.Safety

/-!
# Linking follows no reference that leads nowhere

Some parts of the linked module ask for the index of a function, and this is where linking can fail
for a weak reference without a stub.

* `Program.Asks`: what is in the linked module asks for the index of a function.
* `Program.blames_interface`: what the linked module shows to its surroundings asks for no such
  reference.
* `Program.blames_encode`, `Session.blames_link`: its contents do not ask for others than these.
* `DataLayout.alignment_lt`: the alignments of output segments are those of addresses.
* `Session.link_safe`: linking is grounded, and what is copied lies within the inputs.
-/

namespace StaticLink

theorem Target.function_of_isSynthesized {target : Target}
    (synthesized : target.isSynthesized = true) (kind : target.kind = .function) :
    ∃ function, target = .function (.synthesized function) := by
  unfold isSynthesized at synthesized
  split at synthesized
  · next function => exact ⟨function, rfl⟩
  · cases kind
  · cases kind
  · cases synthesized

namespace Program

/-! ## What asks for functions -/

/-- Something in the linked module asks for the index of function `id`. -/
inductive Asks (program : Program) (id : SymbolId) : Prop
  /-- A direct call in what is taken over from an input. -/
  | call {owner : ModuleId} {found : Section} {range : Span} {relocation : Relocation}
      (copies : program.Copies owner found range) (member : relocation ∈ found.operands range)
      (calls : program.Calls owner relocation id)
  /-- An entry of an input's table, which is a function that the input imports. -/
  | entry {owner : ModuleId} {module : ObjectModule} {segment : ElementSegment} {index : UInt32}
      {found : FunctionImport} (input : program.input owner = .ok module)
      (fills : segment ∈ module.elementSegments) (member : index ∈ segment.functions)
      (here : module.functionImports[index.toNat]? = some found)
      (stands : found.symbol = some id)
  /-- The function that calls all initializers, if there is any code. -/
  | initializer {caller : SymbolId} {symbol : Symbol} {initializers : List SymbolId}
      (any : UInt32.ofNat program.codeCount ≠ 0)
      (supplied : caller ∈ program.symbols.syntheticFunctions)
      (stands : program.symbols.records[caller]? = some symbol)
      (target : symbol.target = .function (.synthesized (.constructorCaller initializers)))
      (member : id ∈ initializers)

variable {program : Program} {owner : ModuleId} {module : ObjectModule} {id : SymbolId}
  {Q : String → Prop} {R : Prop}

/-! ## The interface -/

/-- Symbol `id` stands for something that an input or the linker defines. -/
def IsDefined (program : Program) (id : SymbolId) : Prop :=
  ∃ symbol, program.symbols.records[id]? = some symbol ∧ symbol.isUndefined = false

/-- A definition needs no stub. -/
theorem IsDefined.not_unstubbed (defined : program.IsDefined id) (name : String) :
    ¬ program.Unstubbed id name := by
  rintro ⟨symbol, found, -, -, owner, position, target⟩
  obtain ⟨other, stands, defined⟩ := defined
  obtain rfl := Option.some.inj (stands.symm.trans found)
  rw [Symbol.isUndefined, target] at defined
  cases defined

theorem IsDefined.blames_functionIndex (defined : program.IsDefined id)
    (intact : Intact program.modules program.symbols) : Blames Q R (program.functionIndex id) := by
  have ⟨symbol, stands, _⟩ := defined
  have registered : program.symbols.Registered id symbol.target.kind := ⟨symbol, stands, rfl⟩
  exact Program.blames_functionIndex intact registered fun name unstubbed =>
    absurd unstubbed (defined.not_unstubbed name)

/-- A function with a body of its own is defined. -/
theorem isDefined_of_definedFunction? {name : String}
    (found : program.definedFunction? name = some id) : program.IsDefined id := by
  obtain ⟨-, body⟩ := Option.filter_eq_some_iff.1 found
  obtain ⟨symbol, stands, body⟩ := (Option.any_eq_true _ _).1 body
  refine ⟨symbol, stands, ?_⟩
  unfold Target.hasOwnBody at body
  rw [Symbol.isUndefined]
  split at body
  · next target => rw [target]; rfl
  · next target => rw [target]; rfl
  · cases body

/-- What inputs ask to be exported is exported only if it is defined. -/
theorem isDefined_of_flagged (intact : Intact program.modules program.symbols) {symbol : Symbol}
    (member : (id, symbol) ∈ program.flaggedSymbols) :
    program.symbols.records[id]? = some symbol ∧ program.IsDefined id := by
  obtain ⟨listed, kept⟩ := List.mem_filter.1 member
  have stands := (intact.wellFormed.mem_symbols_iff.1 listed).2
  refine ⟨stands, symbol, stands, ?_⟩
  dsimp only at kept
  rw [Bool.and_eq_true, Bool.and_eq_true, Bool.not_eq_true'] at kept
  exact kept.1.2

theorem blames_functionExport (intact : Intact program.modules program.symbols)
    (defined : program.IsDefined id) (name : String) :
    Blames Q R (program.functionExport name id) :=
  (defined.blames_functionIndex intact).map _

theorem blames_exports (intact : Intact program.modules program.symbols)
    (names : List String) : Blames Q R (program.exports names) := by
  have entryPoint : Blames Q R program.entryPointExports := by
    refine Blames.mapM fun id member => ?_
    have defined := isDefined_of_definedFunction? (Option.mem_toList.1 member)
    exact blames_functionExport intact defined _
  have flagged : Blames Q R program.flaggedExports := by
    refine Blames.mapM ?_
    rintro ⟨id, symbol⟩ member
    obtain ⟨stands, defined⟩ := isDefined_of_flagged intact member
    have registered : program.symbols.Registered id symbol.target.kind := ⟨symbol, stands, rfl⟩
    dsimp only
    split
    · exact (blames_globalIndex intact registered).map _
    · exact blames_functionExport intact defined _
  have requested : Blames Q R (program.requestedExports names) := by
    refine Blames.mapM fun name _ => ?_
    split
    · next id found =>
      exact blames_functionExport intact (isDefined_of_definedFunction? found) name
    · exact .throw (by simp)
  exact entryPoint.bind fun _ _ => flagged.bind fun _ _ => requested.map _

theorem blames_start (intact : Intact program.modules program.symbols) :
    Blames Q R program.start := by
  unfold start
  split
  · exact .ok _
  · next id known =>
    obtain ⟨symbol, stands, -⟩ := intact.wellFormed.named entryPointName id known
    have registered : program.symbols.Registered id symbol.target.kind := ⟨symbol, stands, rfl⟩
    refine registered.blames_get.bind fun symbol here => ?_
    split
    · next target _ =>
      have defined : program.IsDefined id := by
        refine ⟨symbol, existing_eq_ok.1 here, ?_⟩
        rw [Symbol.isUndefined, target]
        rfl
      exact (defined.blames_functionIndex intact).map _
    · exact .ok _

theorem isDefined_of_mem_synthetic (intact : Intact program.modules program.symbols)
    (member : id ∈ program.symbols.syntheticFunctions) : program.IsDefined id := by
  obtain ⟨symbol, stands, supplied, -⟩ := synthesized_of_mem intact .function member
  exact ⟨symbol, stands, SymbolTable.isUndefined_of_supplied supplied⟩

theorem blames_functionNames (intact : Intact program.modules program.symbols)
    (explains : program.Explains R) : Blames Q R program.functionNames := by
  refine Blames.bind (.mapM fun id member => ?_) fun synthetic _ => Blames.map _ (.mapM ?_)
  · have registered := registered_of_mem_synthetic intact member
    have defined := isDefined_of_mem_synthetic intact member
    exact registered.blames_get.bind fun symbol _ => (defined.blames_functionIndex intact).map _
  · rintro ⟨module, owner⟩ listed
    refine Blames.mapM ?_
    rintro ⟨index, name⟩ kept
    obtain ⟨stated, own⟩ := List.mem_filter.1 kept
    exact (Blames.inWord (explains _ _ (.ownFunction (List.mk_mem_zipIdx_iff_getElem?.1 listed)
      (.inr ⟨name, Array.mem_toList_iff.1 stated⟩) (of_decide_eq_true own)))).map _

theorem blames_interface (intact : Intact program.modules program.symbols)
    (explains : program.Explains R) (options : Options) :
    Blames Q R (program.interface options) := by
  refine (blames_exports intact _).bind fun exports _ => ?_
  have named (start : Option Nat) : Blames Q R (do
      let functionNames ← if options.debugNames then some <$> program.functionNames else pure none
      return ({ exports, start, functionNames } : Interface)) := by
    dsimp only
    split
    · exact ((blames_functionNames intact explains).map some).bind fun names _ => .ok _
    · exact .ok _
  dsimp only
  split
  · exact (blames_start intact).bind fun start _ => named start
  · exact named none

/-! ## Entries of sections -/

theorem blames_copySections {section' : SectionId}
    {copy : ModuleId → ObjectModule → Section → Except Error Bytes}
    (each : ∀ owner module found, program.modules[owner]? = some module →
      module.section? section' = some found → Blames Q R (copy owner module found)) :
    Blames Q R (program.copySections section' copy) := by
  refine Blames.map _ (.mapM ?_)
  rintro ⟨module, owner⟩ member
  dsimp only
  split
  · next found first =>
    exact each owner module found (List.mk_mem_zipIdx_iff_getElem?.1 member) first
  · exact .ok []

/-- The payload of a section is in the file. -/
theorem payload_within (intact : Intact program.modules program.symbols)
    (input : program.modules[owner]? = some module) {section' : SectionId} {found : Section}
    (first : module.section? section' = some found) :
    found.header.payload.start ≤ found.header.payload.stop ∧
      found.header.payload.stop ≤ module.bytes.length := by
  have member := Array.mem_of_find?_eq_some first
  have between := (intact.laidOut module (List.mem_of_getElem? input)).sections found member
  exact ⟨between.payload_le, by rw [between.payload_stop]; exact between.stop_le⟩

/-- What is taken over from an input asks for the functions that it calls. -/
theorem blames_relocate_of_copies (intact : Intact program.modules program.symbols)
    (explains : program.Explains R) (asked : ∀ id, program.Asks id → program.Allows Q id)
    (input : program.modules[owner]? = some module) {found : Section} {range : Span}
    (copies : program.Copies owner found range) (order : range.start ≤ range.stop)
    (within : range.stop ≤ module.bytes.length) :
    Blames Q R (program.relocate owner found range) := by
  refine blames_relocate intact input found order within (fun relocation member id calls => ?_) ?_
  · exact asked id (.call copies member calls)
  · intro relocation member kind
    exact explains _ _ (.typeIndex input
      (.inr (.inr ⟨found, copies.mem_sections input, relocation, member, kind, rfl⟩)))

theorem blames_relocateSections (intact : Intact program.modules program.symbols)
    (explains : program.Explains R) (asked : ∀ id, program.Asks id → program.Allows Q id) {section' : SectionId}
    (copies : ∀ owner module found, program.input owner = .ok module →
      module.section? section' = some found → program.Copies owner found found.header.payload) :
    Blames Q R (program.relocateSections section') := by
  refine blames_copySections fun owner module found input first => ?_
  obtain ⟨order, within⟩ := payload_within intact input first
  have copied := copies owner module found (existing_eq_ok.2 input) first
  exact blames_relocate_of_copies intact explains asked input copied order within

theorem blames_typeEntries (intact : Intact program.modules program.symbols) :
    Blames Q R program.typeEntries := by
  refine Blames.map _ (blames_copySections fun owner module found input first => ?_)
  obtain ⟨order, within⟩ := payload_within intact input first
  obtain ⟨bytes, there⟩ := Bytes.exists_slice? order within
  exact .existing there

theorem blames_functionEntries (intact : Intact program.modules program.symbols)
    (explains : program.Explains R) : Blames Q R program.functionEntries := by
  exact (blames_functionTypes intact explains.types).map _

theorem blames_elementEntries (intact : Intact program.modules program.symbols)
    (explains : program.Explains R) (asked : ∀ id, program.Asks id → program.Allows Q id) :
    Blames Q R program.elementEntries := by
  refine Blames.map _ (.mapM ?_)
  rintro ⟨owner, index⟩ member
  obtain ⟨⟨module, other⟩, listed, member⟩ := List.mem_flatMap.1 member
  obtain ⟨segment, fills, member⟩ := List.mem_flatMap.1 member
  obtain ⟨_, entry, same⟩ := List.mem_map.1 member
  cases same
  have input : program.modules[owner]? = some module := List.mk_mem_zipIdx_iff_getElem?.1 listed
  have fills := Array.mem_toList_iff.1 fills
  refine blames_inputFunctionIndex intact explains input (.inl ⟨segment, fills, entry⟩) ?_
  intro found id here stands
  exact asked id (.entry (existing_eq_ok.2 input) fills entry here stands)

/-- The list of functions that the linker supplies holds nothing else. -/
theorem blames_syntheticBody (intact : Intact program.modules program.symbols)
    (asked : ∀ id, program.Asks id → program.Allows Q id)
    (any : UInt32.ofNat program.codeCount ≠ 0)
    (listed : id ∈ program.symbols.syntheticFunctions) : Blames Q R (program.syntheticBody id) := by
  obtain ⟨symbol, stands, synthesized, kind⟩ := synthesized_of_mem intact .function listed
  obtain ⟨function, target⟩ := Target.function_of_isSynthesized synthesized kind
  refine (Blames.existing stands).bind fun found here => ?_
  obtain rfl := Option.some.inj ((existing_eq_ok.1 here).symm.trans stands)
  have exist := intact.targets id found stands
  rw [target] at exist ⊢
  cases function with
  | constructorCaller initializers =>
    refine Blames.map _ (.mapM fun initializer member => ?_)
    have asks : program.Asks initializer := .initializer any listed stands target member
    exact blames_functionIndex intact (exist initializer member) (asked initializer asks)
  | trapStub owner position => exact .ok _

theorem blames_globalEntries (intact : Intact program.modules program.symbols)
    (explains : program.Explains R) (asked : ∀ id, program.Asks id → program.Allows Q id)
    (any : UInt32.ofNat program.globalCount ≠ 0) : Blames Q R program.globalEntries :=
  (blames_relocateSections intact explains asked fun _ _ _ input first => .globals input first any).map _

theorem blames_codeEntries (intact : Intact program.modules program.symbols)
    (explains : program.Explains R) (asked : ∀ id, program.Asks id → program.Allows Q id)
    (any : UInt32.ofNat program.codeCount ≠ 0) : Blames Q R program.codeEntries := by
  refine Blames.bind (.mapM fun _ listed => blames_syntheticBody intact asked any listed) ?_
  intro _ _
  exact (blames_relocateSections intact explains asked fun _ _ _ input first =>
    .code input first any).map _

/-! ## Data -/

theorem blames_chunkContents (intact : Intact program.modules program.symbols)
    (explains : program.Explains R) (asked : ∀ id, program.Asks id → program.Allows Q id)
    (any : UInt32.ofNat program.layout.segments.length ≠ 0) {chunk : Chunk} {input : DataSegment}
    (here : dataSegment? program.modules chunk.owner chunk.segment = some input) :
    Blames Q R (program.chunkContents chunk) := by
  obtain ⟨module, owns, stands⟩ := dataSegment?_eq_some.1 here
  refine blames_bind_input owns ?_
  split
  · next found segment first there =>
    have member := Array.mem_of_getElem? there
    have laidOut := intact.laidOut module (List.mem_of_getElem? owns)
    obtain ⟨-, order, within⟩ := laidOut.data.inside (List.mem_map_of_mem member.val)
    have copies : program.Copies chunk.owner found segment.data :=
      .data (existing_eq_ok.2 owns) first there any
    exact blames_relocate_of_copies intact explains asked owns copies order within
  · exact .throw (by simp)

theorem blames_fillChunks (intact : Intact program.modules program.symbols)
    (explains : program.Explains R) (asked : ∀ id, program.Asks id → program.Allows Q id)
    (any : UInt32.ofNat program.layout.segments.length ≠ 0) {size : Nat} {chunks : List Chunk}
    (stacked : ∀ chunk ∈ chunks, ∃ input,
      dataSegment? program.modules chunk.owner chunk.segment = some input) (written : Nat) :
    Blames Q R (program.fillChunks size written chunks) := by
  induction chunks generalizing written with
  | nil => exact .ok _
  | cons chunk rest ih =>
    obtain ⟨⟨input, here⟩, others⟩ := List.forall_mem_cons.1 stacked
    have first := blames_chunkContents intact explains asked any here
    exact first.bind fun contents _ => (ih others _).map _

theorem blames_dataEntries (intact : Intact program.modules program.symbols)
    (explains : program.Explains R) (asked : ∀ id, program.Asks id → program.Allows Q id)
    (any : UInt32.ofNat program.layout.segments.length ≠ 0)
    (stacked : ∀ segment ∈ program.layout.segments,
      OutputSegment.Stacked program.modules segment.size 0 segment.chunks.toList) :
    Blames Q R program.dataEntries := by
  refine Blames.map _ (.mapM fun segment member => Blames.map _ ?_)
  refine blames_fillChunks intact explains asked any (fun chunk listed => ?_) 0
  obtain ⟨input, here, -⟩ := (stacked segment member).inside listed
  exact ⟨input, here⟩

end Program

/-! ## Writing -/

namespace Writer

variable {Q : String → Prop} {R : Prop}

theorem blames_closeSize (writer : Writer) (field : SizeField) :
    Blames Q R (writer.closeSize field) := by
  unfold closeSize
  dsimp only
  split
  · exact .ok _
  · exact .error (by simp)

theorem blames_addVector (writer : Writer) (id : SectionId) (count : UInt32)
    {entries : Except Error Bytes} (produced : count ≠ 0 → Blames Q R entries) :
    Blames Q R (writer.addVector id count entries) := by
  unfold addVector
  split
  · exact .ok writer
  · next any => exact (produced any).bind fun _ _ => blames_closeSize _ _

end Writer

namespace Program

variable {program : Program} {Q : String → Prop} {R : Prop}

theorem blames_writeNames (names : Option (List (UInt32 × String))) (writer : Writer) :
    Blames Q R (writeNames names writer) := by
  cases names with
  | none => exact .ok writer
  | some names =>
    exact (Writer.blames_closeSize _ _).bind fun _ _ => Writer.blames_closeSize _ _

theorem blames_writeStart (start : Option Nat) (writer : Writer) :
    Blames Q R (writeStart start writer) := by
  cases start with
  | none => exact .ok writer
  | some function => exact Writer.blames_closeSize _ _

/-- Writing a program asks for the functions that something in it asks for, and for no others. -/
theorem blames_encode (intact : Intact program.modules program.symbols)
    (stacked : ∀ segment ∈ program.layout.segments,
      OutputSegment.Stacked program.modules segment.size 0 segment.chunks.toList)
    (explains : program.Explains R) (asked : ∀ id, program.Asks id → program.Allows Q id)
    (interface : Interface) : Blames Q R (program.encode interface) := by
  have made (bytes : Bytes) {count : UInt32} : count ≠ 0 → Blames Q R (.ok bytes) := fun _ => .ok _
  have typed : Blames Q R program.typeEntries := blames_typeEntries intact
  have signed : Blames Q R program.functionEntries := blames_functionEntries intact explains
  have pointed : Blames Q R program.elementEntries := blames_elementEntries intact explains asked
  have shared := blames_globalEntries intact explains asked
  have coded := blames_codeEntries intact explains asked
  rw [encode_eq]
  refine (Blames.inWord (explains _ _ .codeCount)).bind fun _ _ => ?_
  refine Blames.bind ?_ fun declared _ => ?_
  · refine (Writer.blames_addVector _ _ _ fun _ => typed).bind fun _ _ => ?_
    refine (Writer.blames_addVector _ _ _ (made _)).bind fun _ _ => ?_
    refine (Writer.blames_addVector _ _ _ fun _ => signed).bind fun _ _ => ?_
    refine (Writer.blames_addVector _ _ _ (made _)).bind fun _ _ => ?_
    refine (Writer.blames_addVector _ _ _ (made _)).bind fun _ _ => ?_
    refine (Writer.blames_addVector _ _ _ shared).bind fun _ _ => ?_
    exact Writer.blames_addVector _ _ _ (made _)
  · refine (blames_writeStart _ _).bind fun started _ => ?_
    refine Blames.bind ?_ fun filled _ => (blames_writeNames _ _).map _
    refine (Writer.blames_addVector _ _ _ fun _ => pointed).bind fun _ _ => ?_
    refine (Writer.blames_addVector _ _ _ coded).bind fun _ _ => ?_
    exact Writer.blames_addVector _ _ _ fun any =>
      blames_dataEntries intact explains asked any stacked

end Program

/-! ## Alignments -/

namespace OutputSegment

variable {owner : ModuleId} {position bound base stop : Nat} {input : DataSegment}
  {segment pushed : OutputSegment} {segments next : List OutputSegment}

theorem alignment_push (h : segment.push owner position input = .ok pushed) :
    pushed.alignment = max segment.alignment input.info.alignment.toNat := by
  obtain ⟨offset, -, h⟩ := bind_eq_ok.1 h
  obtain ⟨size, -, rfl⟩ := return_eq_ok.1 h
  rfl

theorem alignment_insert (small : input.info.alignment.toNat < bound)
    (before : ∀ segment ∈ segments, segment.alignment < bound)
    (h : insert owner position input segments = .ok next) :
    ∀ segment ∈ next, segment.alignment < bound := by
  induction segments generalizing next with
  | nil =>
    obtain ⟨pushed, put, rfl⟩ := return_eq_ok.1 h
    have alignment := alignment_push put
    intro segment member
    obtain rfl := List.mem_singleton.1 member
    rw [alignment]
    exact Nat.max_lt.2 ⟨Nat.lt_of_le_of_lt (Nat.zero_le _) small, small⟩
  | cons segment rest ih =>
    obtain ⟨one, others⟩ := List.forall_mem_cons.1 before
    unfold insert at h
    split at h
    · obtain ⟨pushed, put, rfl⟩ := return_eq_ok.1 h
      refine List.forall_mem_cons.2 ⟨?_, others⟩
      rw [alignment_push put]
      exact Nat.max_lt.2 ⟨one, small⟩
    · obtain ⟨inserted, put, rfl⟩ := return_eq_ok.1 h
      exact List.forall_mem_cons.2 ⟨one, ih others put⟩

/-- Giving addresses to segments leaves their alignments. -/
theorem alignment_pack (h : pack base segments = .ok (next, stop)) :
    next.map (·.alignment) = segments.map (·.alignment) := by
  induction segments generalizing base next stop with
  | nil =>
    cases h
    rfl
  | cons segment rest ih =>
    obtain ⟨address, -, h⟩ := bind_eq_ok.1 h
    obtain ⟨after, -, h⟩ := bind_eq_ok.1 h
    obtain ⟨⟨packed, last⟩, others, done⟩ := bind_eq_ok.1 h
    cases done
    rw [List.map_cons, List.map_cons, ih others]

end OutputSegment

/-- The alignments of output segments are those of the data segments in them. -/
theorem DataLayout.alignment_lt {modules : List ObjectModule} {base bound : Nat}
    {layout : DataLayout} (small : ∀ module ∈ modules, ∀ segment ∈ module.dataSegments,
      segment.info.alignment.toNat < bound)
    (h : ofModules modules base = .ok layout) :
    ∀ segment ∈ layout.segments, segment.alignment < bound := by
  obtain ⟨merged, folded, h⟩ := bind_eq_ok.1 h
  obtain ⟨⟨segments, stop⟩, packed, rfl⟩ := return_eq_ok.1 h
  have before : ∀ segment ∈ merged, segment.alignment < bound := by
    refine foldlM_keeps_mem (fun segments => ∀ segment ∈ segments, segment.alignment < bound)
      folded ?_ (by simp)
    rintro earlier ⟨module, owner⟩ later member step aligned
    have input : modules[owner]? = some module := List.mk_mem_zipIdx_iff_getElem?.1 member
    obtain ⟨_, -, step⟩ := bind_eq_ok.1 step
    refine foldlM_keeps_mem (fun segments => ∀ segment ∈ segments, segment.alignment < bound)
      step ?_ aligned
    rintro earlier ⟨found, position⟩ later member step aligned
    have here : module.dataSegments.toList[position]? = some found :=
      List.mk_mem_zipIdx_iff_getElem?.1 member
    have there := Array.mem_toList_iff.1 (List.mem_of_getElem? here)
    exact OutputSegment.alignment_insert (small module (List.mem_of_getElem? input) found there)
      aligned step
  -- Sorting and packing keep them.
  intro segment member
  have listed : segment.alignment ∈ segments.map (·.alignment) := List.mem_map_of_mem member
  rw [OutputSegment.alignment_pack packed] at listed
  obtain ⟨other, member, same⟩ := List.mem_map.1 listed
  have sorted := List.mergeSort_perm merged fun first second => decide (second.name ≤ first.name)
  rw [← same]
  exact before other (sorted.mem_iff.1 member)

/-! ## Linking -/

/-- What is counted, copied and overwritten in a program lies within what there is. -/
structure Program.Safe (program : Program) : Prop where
  intact : Intact program.modules program.symbols
  /-- The lists of what the linker supplies hold nothing else. -/
  synthetic : ∀ kind, ∀ id ∈ program.symbols.synthetic kind, ∃ symbol,
    program.symbols.records[id]? = some symbol ∧ symbol.target.isSynthesized = true ∧
      symbol.target.kind = kind
  /-- No chunk starts before the end of the one before it, or ends behind its output segment. -/
  stacked : ∀ segment ∈ program.layout.segments,
    OutputSegment.Stacked program.modules segment.size 0 segment.chunks.toList
  alignments : ∀ segment ∈ program.layout.segments, segment.alignment < 32
  /-- An operand is overwritten by as many bytes as its encoding is wide. -/
  widths : ∀ owner relocation position start bytes result,
    program.relocateOperand owner relocation position start bytes = .ok result →
      ∃ operand rest value, bytes.drop start = operand ++ rest ∧
        operand.length = relocation.kind.encoding.width ∧
        result = bytes.take start ++ relocation.kind.encoding.encode value ++ rest ∧
        (relocation.kind.encoding.encode value).length = relocation.kind.encoding.width

theorem Program.Decided.safe {session : Session} {base : Nat} {program : Program}
    (decided : program.Decided session base) (intact : Intact session.modules session.symbols) :
    program.Safe where
  intact := decided.intact intact
  synthetic := fun kind _ member => synthesized_of_mem (decided.intact intact) kind member
  stacked := fun segment member =>
    ((DataLayout.placed_of_ofModules decided.layout).laid segment member).stacked
  alignments := by
    refine DataLayout.alignment_lt ?_ decided.layout
    exact fun module member => ((decided.intact intact).laidOut module member).alignments
  widths := by
    intro owner relocation position start bytes result h
    obtain ⟨operand, rest, current, value, whole, width, -, -, done⟩ :=
      exists_of_relocateOperand_eq_ok h
    exact ⟨operand, rest, value, whole, width, done, by simp⟩

namespace Session

variable {inputs : List (String × Bytes)} {session : Session} {Q : String → Prop} {R : Prop}

/-- Linking follows no reference that leads nowhere. It fails for functions without a stub that
something in the linked module asks for, and for numbers that are no words. -/
theorem blames_link (intact : Intact session.modules session.symbols) (options : Options)
    (types : ∀ symbols, Program.ExplainsTypes session.modules symbols R)
    (each : ∀ program, Program.ofSession session options.globalBase.toNat = .ok program →
      program.Explains R ∧ ∀ id, program.Asks id → program.Allows Q id) :
    Blames Q R (session.link options) := by
  refine (Program.blames_ofSession intact types _).bind fun program decided => ?_
  have safe := (Program.decided_of_ofSession decided).safe intact
  obtain ⟨explains, asked⟩ := each program decided
  refine (Program.blames_interface safe.intact explains options).bind fun interface _ => ?_
  exact Program.blames_encode safe.intact safe.stacked explains asked interface

/-- Where no input was refused, linking follows no reference that leads nowhere, whatever it is
asked for: all references between inputs and symbols lead somewhere, and what is copied and
overwritten lies within what there is. -/
theorem link_safe (added : addAll inputs .empty = .ok () session) (options : Options) :
    Grounded (session.link options) ∧ Intact session.modules session.symbols ∧
      ∀ program, Program.ofSession session options.globalBase.toNat = .ok program →
        program.Safe := by
  have intact := addAll_intact added
  refine ⟨?_, intact, fun program decided => (Program.decided_of_ofSession decided).safe intact⟩
  -- It does not matter here which functions and numbers make linking fail.
  have blames : Blames (fun _ => True) True (session.link options) :=
    blames_link intact options (fun _ => ⟨fun _ => trivial, fun _ _ _ _ _ _ => trivial⟩)
      fun _ _ => ⟨fun _ _ _ _ => trivial, fun _ _ _ _ => trivial⟩
  exact blames.grounded

/-- An input with data and two with functions, of which one calls itself. -/
theorem link_safe_constants :
    ∃ (session : Session) (program : Program), addAll (constants ++ pair) .empty = .ok () session ∧
      Program.ofSession session 1024 = .ok program ∧ Grounded (session.link {}) ∧
      Intact session.modules session.symbols ∧ program.Safe ∧
      program.modules.length = 3 ∧ program.layout.segments.length = 1 := by
  have facts : ((Program.ofInputs (constants ++ pair) {}).map fun program =>
      (program.modules.length, program.layout.segments.length)) = .ok (3, 1) := by decide +kernel
  rcases decided : Program.ofInputs (constants ++ pair) {} with error | program
  · rw [decided] at facts
    cases facts
  rw [decided] at facts
  obtain ⟨modules, segments⟩ := Prod.mk.inj (Except.ok.inj facts)
  unfold Program.ofInputs at decided
  split at decided
  · next session added =>
    obtain ⟨grounded, intact, safe⟩ := link_safe added {}
    exact ⟨session, program, added, decided, grounded, intact, safe program decided, modules,
      segments⟩
  · cases decided

end Session

end StaticLink
