import StaticLink.Proofs.Output.Bodies
import StaticLink.Proofs.Output.Operands
import StaticLink.Proofs.Output.References
import StaticLink.Proofs.Program.Sums
import StaticLink.Proofs.Relocation.Applied
import StaticLink.Proofs.Scan.Reading

/-!
# Signatures

The types of the inputs are copied as bytes that are never looked into, behind the one that the
linker adds for the caller of the initializers. Whatever has a type gets a number for it, by adding
up what inputs declare. In the linked module this number stands for the signature that was meant.

* `IsSignature`: a signature in bytes; `signatures_unique`: bytes are a row of them in one way.
* `ObjectModule.HasSignatures`: the signatures of an input.
* `Program.HasSignature`: the signature that a function of the linked module must have.
* `Program.ShowsSignatures`: the signatures of the linked module.
* `Program.KeepsSignatures`: imports, functions and operands are numbered as they should be.
* `link_signatures`: it holds of every linked module.
-/

namespace StaticLink

/-! ## Signatures in bytes -/

/-- The first byte of a signature. -/
def functionForm : UInt8 := 0x60

/-- The bytes are a signature: the types of the parameters and then those of the results, each of
them a number with as many bytes behind it. -/
def IsSignature (signature : Bytes) : Prop :=
  ∃ parameters results width width', signature = functionForm :: (parameters ++ results) ∧
    IsBody parameters width ∧ IsBody results width'

theorem isSignature_emptySignature : IsSignature Program.emptySignature :=
  ⟨[0], [0], 1, 1, rfl, ⟨0, by decide, rfl⟩, 0, by decide, rfl⟩

/-- A number with as many bytes behind it shows where it ends. -/
theorem IsBody.unique {one other behind behind' : Bytes} {width width' : Nat}
    (is : IsBody one width) (is' : IsBody other width') (same : one ++ behind = other ++ behind') :
    one = other ∧ behind = behind' := by
  obtain ⟨size, decoded, length⟩ := is
  obtain ⟨size', decoded', length'⟩ := is'
  obtain ⟨-, first, rest, rfl, -, again⟩ := Leb128.prefixed_decodeUInt32 one size width decoded
  obtain ⟨-, first', rest', rfl, -, again'⟩ :=
    Leb128.prefixed_decodeUInt32 other size' width' decoded'
  -- Both numbers are read at the start of the same bytes.
  have number := again (rest ++ behind)
  rw [← List.append_assoc, same, List.append_assoc, again'] at number
  obtain ⟨rfl, rfl⟩ := Prod.mk.inj (Except.ok.inj number)
  exact List.append_inj same (length.trans length'.symm)

theorem IsSignature.unique {one other behind behind' : Bytes} (is : IsSignature one)
    (is' : IsSignature other) (same : one ++ behind = other ++ behind') :
    one = other ∧ behind = behind' := by
  obtain ⟨parameters, results, _, _, rfl, first, second⟩ := is
  obtain ⟨parameters', results', _, _, rfl, first', second'⟩ := is'
  simp only [List.cons_append, List.append_assoc, List.cons.injEq, true_and] at same
  obtain ⟨rfl, behind⟩ := first.unique first' same
  obtain ⟨rfl, rfl⟩ := second.unique second' behind
  exact ⟨rfl, rfl⟩

theorem IsSignature.length_pos {signature : Bytes} (is : IsSignature signature) :
    0 < signature.length := by
  obtain ⟨_, _, _, _, rfl, -⟩ := is
  exact Nat.succ_pos _

/-- Bytes are a row of signatures in one way. -/
theorem signatures_unique {signatures others : List Bytes}
    (each : ∀ signature ∈ signatures, IsSignature signature)
    (each' : ∀ signature ∈ others, IsSignature signature)
    (same : signatures.flatten = others.flatten) : signatures = others := by
  rw [← List.flatMap_id, ← List.flatMap_id] at same
  exact items_unique (fun _ => IsSignature.length_pos)
    (fun _ _ _ _ one two => one.unique two) each each' same

/-- The types of the module are these signatures. There are as many as its section for types
declares, and nothing in the module is of a type behind them. -/
structure ObjectModule.HasSignatures (module : ObjectModule) (signatures : List Bytes) : Prop where
  count : signatures.length = module.declaredCount .types
  each : ∀ signature ∈ signatures, IsSignature signature
  whole : ∀ found, module.section? .types = some found →
    module.slice found.header.payload = .ok signatures.flatten
  within : ∀ index, module.StatesType index → index.toNat < signatures.length

namespace Program

/-- The types of each input are its signatures. -/
def HaveSignatures (program : Program) (signatures : ModuleId → List Bytes) : Prop :=
  ∀ (owner : ModuleId) (module : ObjectModule), program.modules[owner]? = some module →
    module.HasSignatures (signatures owner)

/-- The signatures of the inputs, one list for each of them. -/
def signatureLists (program : Program) (signatures : ModuleId → List Bytes) : List (List Bytes) :=
  program.modules.zipIdx.map fun (_, owner) => signatures owner

/-- The signatures of the linked module, by those of the inputs. -/
def signaturesWith (program : Program) (signatures : ModuleId → List Bytes) : List Bytes :=
  (if program.symbols.callsConstructors then [emptySignature] else []) ++
    (program.signatureLists signatures).flatten

/-- The signature that a function of the linked module must have. -/
inductive HasSignature (program : Program) (signatures : ModuleId → List Bytes) :
    OutputFunction → Bytes → Prop
  /-- An import has that of the first symbol for its name. -/
  | imported {name : ImportName} {place : ModuleId × UInt32} {found : FunctionImport}
      {signature : Bytes}
      (first : FirstNamed program.symbols.strongFunctions program.functionImportAt
        FunctionImport.importName name place found)
      (here : (signatures place.1)[found.typeIndex.toNat]? = some signature) :
    HasSignature program signatures (.imported name) signature
  | defined {owner : ModuleId} {position : Nat} {module : ObjectModule} {type : UInt32}
      {signature : Bytes} (input : program.modules[owner]? = some module)
      (typed : module.functions[position]? = some type)
      (here : (signatures owner)[type.toNat]? = some signature) :
    HasSignature program signatures (.defined owner position) signature
  /-- A stub has that of the import that it stands in for. -/
  | stub {id : SymbolId} {symbol : Symbol} {owner : ModuleId} {place : UInt32}
      {found : FunctionImport} {signature : Bytes}
      (stands : program.symbols.get id = .ok symbol)
      (target : symbol.target = .function (.synthesized (.trapStub owner place)))
      (imports : program.functionImportAt (owner, place) = .ok found)
      (here : (signatures owner)[found.typeIndex.toNat]? = some signature) :
    HasSignature program signatures (.supplied id) signature
  /-- The caller of the initializers has no parameters and no results. -/
  | constructorCaller {id : SymbolId} {symbol : Symbol} {functions : List SymbolId}
      (stands : program.symbols.get id = .ok symbol)
      (target : symbol.target = .function (.synthesized (.constructorCaller functions))) :
    HasSignature program signatures (.supplied id) emptySignature

/-- The section for types has these signatures: those of each input where the numbers of its types
start. -/
structure ShowsSignatures (program : Program) (contents : SectionId → Option Bytes)
    (signatures : ModuleId → List Bytes) (entries : List Bytes) : Prop where
  size : entries.length = program.typeCount
  contents : contents .types = if program.typeCount = 0 then none
    else some (encodeNat program.typeCount ++ entries.flatten)
  /-- The bytes of the section are signatures in this way only. -/
  cut : ∀ others : List Bytes, (∀ other ∈ others, IsSignature other) ∧
    others.flatten = entries.flatten ↔ others = entries
  input : ∀ (owner : ModuleId) (module : ObjectModule) (t : Nat) (signature : Bytes),
    program.modules[owner]? = some module → (signatures owner)[t]? = some signature →
    entries[program.typeBase owner + t]? = some signature
  first : program.symbols.callsConstructors = true → entries[0]? = some emptySignature

/-- Whatever has a type in the linked module has the number of the right signature. -/
structure KeepsSignatures (program : Program) (output : Bytes)
    (signatures : ModuleId → List Bytes) (entries : List Bytes) (types : List Nat) : Prop where
  /-- The functions are the imports and those that the section for functions has a type for. -/
  function : ∀ function index, program.HasIndex function index → ∃ type signature,
    (program.imports.functions.map (·.2) ++ types)[index]? = some type ∧
    entries[type]? = some signature ∧
    ∀ other, program.HasSignature signatures function other ↔ other = signature
  /-- An operand is the number of a type that its input has. -/
  operand : ∀ copy ∈ program.copies, ∃ module found original result,
    program.modules[copy.owner]? = some module ∧ module.sections[copy.place]? = some found ∧
    module.slice copy.range = .ok original ∧ program.perform copy = .ok result ∧
    result <:+: output ∧
    ∀ before relocation after, found.operands copy.range = before ++ relocation :: after →
      relocation.kind = .typeIndexLeb → ∃ (current : Int) (type : Nat) (signature : Bytes),
        program.Applied copy.owner found copy.range.start original result before relocation after
          current type ∧
        relocation.kind.encoding.reduce type = type ∧ entries[type]? = some signature ∧
        (signatures copy.owner)[relocation.index.toNat]? = some signature

variable {program : Program} {signatures : ModuleId → List Bytes} {owner : ModuleId}
  {module : ObjectModule} {function : OutputFunction} {index type : Nat} {entries : List Bytes}
  {contents : SectionId → Option Bytes} {output : Bytes} {interface : Interface}

/-- A function must have one signature. -/
theorem HasSignature.unique {signature other : Bytes}
    (one : program.HasSignature signatures function signature)
    (two : program.HasSignature signatures function other) : signature = other := by
  cases one with
  | imported first here =>
    cases two with
    | imported first' here' =>
      obtain ⟨rfl, rfl⟩ := first.unique first'
      exact Option.some.inj (here.symm.trans here')
  | defined input typed here =>
    cases two with
    | defined input' typed' here' =>
      cases input.symm.trans input'
      cases typed.symm.trans typed'
      exact Option.some.inj (here.symm.trans here')
  | stub stands target imports here =>
    cases two with
    | stub stands' target' imports' here' =>
      cases stands.symm.trans stands'
      cases target.symm.trans target'
      cases imports.symm.trans imports'
      exact Option.some.inj (here.symm.trans here')
    | constructorCaller stands' target' =>
      cases stands.symm.trans stands'
      cases target.symm.trans target'
  | constructorCaller stands target =>
    cases two with
    | stub stands' target' imports' here' =>
      cases stands.symm.trans stands'
      cases target.symm.trans target'
    | constructorCaller => rfl

/-! ## The section for types -/

theorem getElem?_signatureLists (input : program.modules[owner]? = some module) :
    (program.signatureLists signatures)[owner]? = some (signatures owner) := by
  rw [signatureLists, List.getElem?_map, List.getElem?_zipIdx, input, Option.map_some,
    Option.map_some, Nat.zero_add]

/-- What is copied for the section for types are the signatures of the inputs. -/
theorem flatten_signatureLists {copied : Bytes} (each : program.HaveSignatures signatures)
    (h : program.copySections .types
      (fun _ module found => module.slice found.header.payload) = .ok copied) :
    copied = (program.signatureLists signatures).flatten.flatten := by
  obtain ⟨pieces, rfl, count, piece⟩ := exists_pieces_of_copySections h
  rw [List.flatten_flatten]
  refine congrArg List.flatten (List.ext_getElem? fun owner => ?_)
  rw [List.getElem?_map]
  rcases input : program.modules[owner]? with _ | module
  · have behind : program.modules.length ≤ owner := List.getElem?_eq_none_iff.1 input
    rw [List.getElem?_eq_none (by rw [count]; exact behind), signatureLists, List.getElem?_map,
      List.getElem?_eq_none (by rw [List.length_zipIdx]; exact behind)]
    rfl
  · obtain ⟨bytes, here, copied⟩ := piece owner module input
    have has := each owner module input
    rw [here, getElem?_signatureLists input, Option.map_some, Option.some.injEq]
    rcases copied with ⟨none, rfl⟩ | ⟨found, first, slice⟩
    · -- Without a section there are no signatures.
      have zero := has.count
      rw [ObjectModule.declaredCount, none] at zero
      rw [List.length_eq_zero_iff.1 zero, List.flatten_nil]
    · exact Except.ok.inj (slice.symm.trans (has.whole found first))

/-- Each input has as many signatures as it declares. -/
theorem sizes_signatureLists (each : program.HaveSignatures signatures)
    (owner : ModuleId) (module : ObjectModule) (list : List Bytes)
    (input : program.modules[owner]? = some module)
    (here : (program.signatureLists signatures)[owner]? = some list) :
    list.length = module.declaredCount .types := by
  rw [getElem?_signatureLists input] at here
  cases here
  exact (each owner module input).count

theorem isSignature_of_mem_signaturesWith (each : program.HaveSignatures signatures)
    {signature : Bytes} (member : signature ∈ program.signaturesWith signatures) :
    IsSignature signature := by
  rcases List.mem_append.1 member with leading | copied
  · split at leading
    · obtain rfl := List.mem_singleton.1 leading
      exact isSignature_emptySignature
    · cases leading
  · obtain ⟨list, listed, member⟩ := List.mem_flatten.1 copied
    obtain ⟨⟨module, owner⟩, among, rfl⟩ := List.mem_map.1 listed
    exact (each owner module (List.mk_mem_zipIdx_iff_getElem?.1 among)).each signature member

theorem length_leadingTypes (program : Program) :
    (if program.symbols.callsConstructors then [emptySignature] else []).length =
      program.symbols.leadingTypes := by
  unfold SymbolTable.leadingTypes
  split <;> rfl

theorem showsSignatures_of_written (written : program.Written interface contents output)
    (each : program.HaveSignatures signatures) (few : program.typeCount < wordLimit) :
    program.ShowsSignatures contents signatures (program.signaturesWith signatures) := by
  have sizes := sizes_signatureLists each
  have lists : (program.signatureLists signatures).length = program.modules.length := by
    rw [signatureLists, List.length_map, List.length_zipIdx]
  have count : (UInt32.ofNat program.typeCount).toNat = program.typeCount :=
    UInt32.toNat_ofNat_of_lt' few
  refine ⟨?_, ?_, fun others => ⟨?_, ?_⟩, ?_, ?_⟩
  · rw [signaturesWith, List.length_append, length_leadingTypes,
      length_flatten_of_sizes (·.declaredCount .types) lists sizes]
    rfl
  · rcases vectorContents_eq_ok (written.made .types) with ⟨zero, none⟩ | ⟨any, _, produced, some⟩
    · rw [none, if_pos]
      rw [← count, zero]
      rfl
    · have some' : program.typeCount ≠ 0 := by
        intro zero
        rw [zero] at any
        exact any rfl
      obtain ⟨copied, copies, rfl⟩ := return_eq_ok.1 produced
      rw [some, if_neg some', signaturesWith, List.flatten_append,
        ← flatten_signatureLists each copies]
      split <;> rfl
  · rintro ⟨signed, same⟩
    exact signatures_unique signed (fun _ => isSignature_of_mem_signaturesWith each) same
  · rintro rfl
    exact ⟨fun _ => isSignature_of_mem_signaturesWith each, rfl⟩
  · intro owner module t signature input here
    have small : t < module.declaredCount .types := by
      rw [← (each owner module input).count]
      exact (List.getElem?_eq_some_iff.1 here).1
    rw [typeBase, StaticLink.typeBase, Nat.add_assoc, ← length_leadingTypes, signaturesWith,
      List.getElem?_append_right (Nat.le_add_right _ _), Nat.add_sub_cancel_left,
      getElem?_flatten_of_sizes (·.declaredCount .types) sizes input
        (getElem?_signatureLists input) small]
    exact here
  · intro calls
    rw [signaturesWith, if_pos calls]
    rfl

/-! ## What has a type -/

/-- A type that an input states is that of one of its signatures, and the linked module has it. -/
theorem ShowsSignatures.exists_of_states
    (shows : program.ShowsSignatures contents signatures entries)
    (each : program.HaveSignatures signatures) {type : UInt32}
    (input : program.modules[owner]? = some module) (states : module.StatesType type) :
    ∃ signature, (signatures owner)[type.toNat]? = some signature ∧
      entries[program.typeBase owner + type.toNat]? = some signature := by
  have here := List.getElem?_eq_getElem ((each owner module input).within type states)
  exact ⟨_, here, shows.input owner module type.toNat _ input here⟩

/-- The type of a function that the linked module defines is that of its signature. -/
theorem ShowsSignatures.exists_of_hasType
    (shows : program.ShowsSignatures contents signatures entries)
    (each : program.HaveSignatures signatures) (typed : program.HasType function type) :
    ∃ signature, entries[type]? = some signature ∧
      program.HasSignature signatures function signature := by
  cases typed with
  | @defined owner position module type input here =>
    obtain ⟨signature, own, there⟩ :=
      shows.exists_of_states each input (.inl (Array.mem_of_getElem? here))
    exact ⟨signature, there, .defined input here own⟩
  | @stub id symbol owner place module found stands target input imports =>
    have listed := Array.mem_of_getElem? (existing_eq_ok.1 imports)
    obtain ⟨signature, own, there⟩ := shows.exists_of_states each (existing_eq_ok.1 input)
      (.inr (.inl ⟨found, listed, rfl⟩))
    exact ⟨signature, there, .stub stands target (bind_eq_ok.2 ⟨module, input, imports⟩) own⟩
  | constructorCaller stands target added =>
    exact ⟨emptySignature, shows.first added, .constructorCaller stands target⟩

/-- What is not an import comes behind the imports. -/
theorem HasIndex.imported_or_behind (has : program.HasIndex function index)
    (wf : program.symbols.WellFormed) :
    (∃ name, function = .imported name ∧ program.imports.functionIndex? name = some index) ∨
      program.imports.functions.length ≤ index := by
  cases has with
  | @imported name index found => exact .inl ⟨name, rfl, found⟩
  | supplied listed found =>
    obtain ⟨place, here⟩ := List.mem_iff_getElem?.1 listed
    cases found.symm.trans (functionIndex_of_synthetic wf here)
    exact .inr (Nat.le_add_right _ _)
  | defined input small =>
    unfold functionBase syntheticFunctionBase
    exact .inr (by omega)

/-- Every function of the linked module has the number of its signature. -/
theorem ShowsSignatures.exists_of_hasIndex {types : List Nat}
    (shows : program.ShowsSignatures contents signatures entries)
    (each : program.HaveSignatures signatures) (typed : program.Typed contents types)
    (wf : program.symbols.WellFormed)
    (imports : Imports.ofSymbols program.modules program.symbols = .ok program.imports)
    (has : program.HasIndex function index) : ∃ type signature,
      (program.imports.functions.map (·.2) ++ types)[index]? = some type ∧
      entries[type]? = some signature ∧ program.HasSignature signatures function signature := by
  rcases has.imported_or_behind wf with ⟨name, rfl, found⟩ | behind
  · obtain ⟨place, own, first, listed⟩ := exists_firstNamed_function imports found
    obtain ⟨module, input, here⟩ := bind_eq_ok.1 first.here
    obtain ⟨signature, there, shown⟩ := shows.exists_of_states each (existing_eq_ok.1 input)
      (.inr (.inl ⟨own, Array.mem_of_getElem? (existing_eq_ok.1 here), rfl⟩))
    refine ⟨_, signature, ?_, shown, .imported first there⟩
    have before := (List.getElem?_eq_some_iff.1 listed).1
    rw [List.getElem?_append_left (by rw [List.length_map]; exact before), List.getElem?_map,
      listed]
    rfl
  · obtain ⟨type, here, is⟩ := typed.type function index has behind
    obtain ⟨signature, there, own⟩ := shows.exists_of_hasType each is
    refine ⟨type, signature, ?_, there, own⟩
    rw [List.getElem?_append_right (by rw [List.length_map]; exact behind), List.length_map]
    exact here

/-- Every operand for a type is the number of its signature. -/
theorem ShowsSignatures.exists_of_split {found : Section} {range : Span} {result : Bytes}
    {before after : List Relocation} {relocation : Relocation}
    (shows : program.ShowsSignatures contents signatures entries)
    (each : program.HaveSignatures signatures) (few : program.typeCount < wordLimit)
    (input : program.modules[owner]? = some module) (member : found ∈ module.sections)
    (h : program.relocate owner found range = .ok result)
    (split : found.operands range = before ++ relocation :: after)
    (kind : relocation.kind = .typeIndexLeb) :
    ∃ (original : Bytes) (current : Int) (type : Nat) (signature : Bytes),
      module.slice range = .ok original ∧
      program.Applied owner found range.start original result before relocation after current
        type ∧
      relocation.kind.encoding.reduce type = type ∧ entries[type]? = some signature ∧
      (signatures owner)[relocation.index.toNat]? = some signature := by
  obtain ⟨_, original, current, value, same, slice, applied⟩ := exists_applied h split
  cases (existing_eq_ok.2 input).symm.trans same
  obtain ⟨-, rfl⟩ := typeIndex_of_operandValue kind applied.computed
  have listed : relocation ∈ found.operands range := by
    rw [split]
    exact List.mem_append_right _ List.mem_cons_self
  have states : module.StatesType relocation.index :=
    .inr (.inr ⟨found, member, relocation, Array.mem_toList_iff.1 (List.mem_filter.1 listed).1,
      kind, rfl⟩)
  obtain ⟨signature, own, there⟩ := shows.exists_of_states each input states
  refine ⟨original, current, _, signature, slice, applied, ?_, there, own⟩
  have small := (List.getElem?_eq_some_iff.1 there).1
  rw [shows.size] at small
  rw [kind]
  exact Relocation.Encoding.reduce_of_unsigned rfl (Int.natCast_nonneg _)
    (Int.ofNat_lt.2 (Nat.lt_trans small few))

end Program

/-- The section for types of a linked module has the signatures of the inputs, each of them at the
number that is added up for it, where inputs have as many signatures as they declare and state no
other types. Whatever has a type then has the number of the signature that was meant: a function
that of its input, an import that of the first symbol for its name, a stub that of the import that
it stands in for, the caller of the initializers the empty one, and an operand that of its
relocation. -/
theorem link_signatures {inputs : List (String × Bytes)} {options : Options} {output : Bytes}
    (linked : link inputs options = .ok output) :
    ∃ program interface contents, Program.ofInputs inputs options = .ok program ∧
      program.Written interface contents output ∧
      (contents .imports = if UInt32.ofNat program.importCount = 0 then none
        else some (Leb128.ofUInt32 (.ofNat program.importCount) ++ program.importEntries)) ∧
      ∀ signatures, program.HaveSignatures signatures → program.typeCount < wordLimit →
        program.imports.functions.length + program.functionCount < wordLimit →
        ∃ entries types, program.Numbered ∧ program.Typed contents types ∧
          program.ShowsSignatures contents signatures entries ∧
          program.KeepsSignatures output signatures entries types := by
  obtain ⟨program, interface, decided, made, written⟩ := exists_written_of_link linked
  obtain ⟨session, -, parts⟩ := Program.decided_of_ofInputs decided
  have wf := (Program.sound_of_ofInputs decided).wellFormed
  refine ⟨program, interface, _, decided, written, written.importContents, ?_⟩
  intro signatures each few functions
  have numbered := Program.numbered_of_few decided functions
  obtain ⟨types, typed⟩ := numbered.exists_typed wf written
  have shows := Program.showsSignatures_of_written written each few
  refine ⟨_, types, numbered, typed, shows, ⟨fun function index has => ?_, fun copy member => ?_⟩⟩
  · obtain ⟨type, signature, here, there, own⟩ :=
      shows.exists_of_hasIndex each typed wf parts.imports has
    exact ⟨type, signature, here, there, fun other =>
      ⟨fun also => also.unique own, fun same => same ▸ own⟩⟩
  · obtain ⟨module, found, original, result, input, here, slice, -, performed, within⟩ :=
      (Program.copiesOut_of_contents written.contents parts.layout).performed copy member
    refine ⟨module, found, original, result, input, here, slice, performed, within, ?_⟩
    intro before relocation after split kind
    rw [Program.perform_eq copy input here] at performed
    obtain ⟨_, current, type, signature, slice', applied, small, there, own⟩ :=
      shows.exists_of_split each few input (Array.mem_of_getElem? here) performed split kind
    cases slice.symm.trans slice'
    exact ⟨current, type, signature, applied, small, there, own⟩

/-! ## Two inputs that call functions by their types -/

/-- The payload of a section for types, how many types it declares and those that are stated. -/
structure TypeFacts where
  payload : Option (Option Bytes)
  declared : Nat
  stated : List UInt32
deriving DecidableEq

namespace ObjectModule

/-- The types that the module states. -/
def statedTypes (module : ObjectModule) : List UInt32 :=
  module.functions.toList ++ (module.functionImports.toList.map (·.typeIndex) ++
    module.sections.toList.flatMap fun found =>
      (found.relocations.toList.filter (·.kind = .typeIndexLeb)).map (·.index))

theorem mem_statedTypes {module : ObjectModule} {type : UInt32}
    (states : module.StatesType type) : type ∈ module.statedTypes := by
  rcases states with function | ⟨found, member, rfl⟩ |
    ⟨found, member, relocation, listed, kind, rfl⟩
  · exact List.mem_append_left _ (Array.mem_toList_iff.2 function)
  · exact List.mem_append_right _
      (List.mem_append_left _ (List.mem_map_of_mem (Array.mem_toList_iff.2 member)))
  · refine List.mem_append_right _ (List.mem_append_right _ (List.mem_flatMap.2
      ⟨found, Array.mem_toList_iff.2 member, List.mem_map_of_mem (List.mem_filter.2 ⟨?_, ?_⟩)⟩))
    · exact Array.mem_toList_iff.2 listed
    · exact decide_eq_true kind

/-- What is known of the types of the module. -/
def typeFacts (module : ObjectModule) : TypeFacts where
  payload := (module.section? .types).map fun found => module.bytes.slice? found.header.payload
  declared := module.declaredCount .types
  stated := module.statedTypes

theorem hasSignatures_of_typeFacts {module : ObjectModule} {signatures : List Bytes}
    {stated : List UInt32}
    (facts : module.typeFacts = ⟨some (some signatures.flatten), signatures.length, stated⟩)
    (each : ∀ signature ∈ signatures, IsSignature signature)
    (within : ∀ type ∈ stated, type.toNat < signatures.length) :
    module.HasSignatures signatures := by
  obtain ⟨payload, count, rfl⟩ := TypeFacts.mk.inj facts
  refine ⟨count.symm, each, fun found first => ?_, fun type states => ?_⟩
  · rw [first] at payload
    exact existing_eq_ok.2 (Option.some.inj payload)
  · exact within type (mem_statedTypes states)

end ObjectModule

/-- An input with an initializer that calls a function that nothing defines, and another one that
nothing needs to define, and an input that calls a function of the table. -/
def calling : List (String × Bytes) :=
  [("direct.o",
      [0, 97, 115, 109, 1, 0, 0, 0, 1, 8, 2, 96, 0, 0, 96, 1, 127, 0, 2, 13, 2, 1, 109, 1, 102, 0,
       1, 1, 109, 1, 119, 0, 1, 3, 2, 1, 0, 10, 20, 1, 18, 0, 65, 0, 16, 128, 128, 128, 128, 0, 65,
       0, 16, 129, 128, 128, 128, 0, 11, 0, 28, 7, 108, 105, 110, 107, 105, 110, 103, 2, 8, 12, 3,
       0, 0, 2, 1, 105, 0, 16, 0, 0, 17, 1, 6, 3, 1, 0, 0, 0, 19, 10, 114, 101, 108, 111, 99, 46,
       67, 79, 68, 69, 3, 2, 0, 6, 1, 0, 14, 2]),
    ("indirect.o",
      [0, 97, 115, 109, 1, 0, 0, 0, 1, 5, 1, 96, 1, 127, 0, 3, 2, 1, 0, 10, 15, 1, 13, 0, 32, 0,
       65, 0, 17, 128, 128, 128, 128, 0, 0, 11, 0, 17, 7, 108, 105, 110, 107, 105, 110, 103, 2, 8,
       6, 1, 0, 0, 0, 1, 103, 0, 16, 10, 114, 101, 108, 111, 99, 46, 67, 79, 68, 69, 2, 1, 6, 8,
       0])]

/-- Their signatures. -/
def signaturesOfCalling : ModuleId → List Bytes
  | 0 => [[96, 0, 0], [96, 1, 127, 0]]
  | _ => [[96, 1, 127, 0]]

/-- The type of the second input comes behind that of the initializers and those of the first. The
operand of its call through the table has become the number of it. -/
theorem link_calling_signatures :
    ∃ (program : Program) (entries : List Bytes) (types : List Nat) (output result : Bytes),
      link calling {} = .ok output ∧ program.HaveSignatures signaturesOfCalling ∧
      entries = [Program.emptySignature, [96, 0, 0], [96, 1, 127, 0], [96, 1, 127, 0]] ∧
      program.outputFunctions = [.imported ⟨"m", "f"⟩, .supplied 4, .supplied 2, .defined 0 0,
        .defined 1 0] ∧
      program.KeepsSignatures output signaturesOfCalling entries types ∧ result <:+: output ∧
      Relocation.Encoding.uleb32.decode (result.window 7 5) = .ok 3 := by
  have accepted : (link calling {}).isOk = true := by decide +kernel
  have facts : ((Program.ofInputs calling {}).map fun program =>
      (program.modules.map (·.typeFacts), program.typeCount, program.typeBase 0,
        program.typeBase 1)) =
        .ok ([⟨some (some [96, 0, 0, 96, 1, 127, 0]), 2, [0, 1, 1]⟩,
          ⟨some (some [96, 1, 127, 0]), 1, [0, 0]⟩], 4, 1, 3) := by decide +kernel
  have functions : ((Program.ofInputs calling {}).map fun program =>
      (program.outputFunctions, program.imports.functions.length, program.functionCount,
        program.symbols.callsConstructors)) =
        .ok ([.imported ⟨"m", "f"⟩, .supplied 4, .supplied 2, .defined 0 0, .defined 1 0], 1, 4,
          true) := by decide +kernel
  have site : (Program.ofInputs calling {} >>= (·.copySite 1 0)) =
      .ok ⟨⟨1, 2, ⟨22, 36⟩⟩, 21, [13, 0, 32, 0, 65, 0, 17, 128, 128, 128, 128, 0, 0, 11],
        [⟨.typeIndexLeb, 8, 0, 0⟩], #[.symbol 3], #[], .function (.defined 0 0)⟩ := by
    decide +kernel
  obtain ⟨output, linked⟩ := exists_of_isOk accepted
  obtain ⟨program, _, contents, decided, -, -, each⟩ := link_signatures linked
  rw [decided] at facts functions site
  obtain ⟨modules, facts⟩ := Prod.mk.inj (Except.ok.inj facts)
  obtain ⟨count, facts⟩ := Prod.mk.inj facts
  obtain ⟨base, base'⟩ := Prod.mk.inj facts
  obtain ⟨listed, functions⟩ := Prod.mk.inj (Except.ok.inj functions)
  obtain ⟨imports, functions⟩ := Prod.mk.inj functions
  obtain ⟨defined, calls⟩ := Prod.mk.inj functions
  obtain ⟨first, _, modules, one, others⟩ := List.map_eq_cons_iff.1 modules
  obtain ⟨second, rfl, two⟩ := List.map_eq_singleton_iff.1 others
  have plain : IsSignature [96, 0, 0] := isSignature_emptySignature
  have taking : IsSignature [96, 1, 127, 0] :=
    ⟨[1, 127], [0], 1, 1, rfl, ⟨1, by decide, rfl⟩, 0, by decide, rfl⟩
  have own : program.HaveSignatures signaturesOfCalling := by
    intro owner module here
    rw [modules] at here
    match owner, here with
    | 0, here =>
      cases here
      exact ObjectModule.hasSignatures_of_typeFacts one
        (by rintro _ (_ | ⟨_, _ | ⟨_, ⟨⟩⟩⟩) <;> assumption) (by simp [signaturesOfCalling])
    | 1, here =>
      cases here
      exact ObjectModule.hasSignatures_of_typeFacts two
        (by rintro _ (_ | ⟨_, ⟨⟩⟩); assumption) (by simp [signaturesOfCalling])
  obtain ⟨entries, types, -, -, shows, keeps⟩ := each signaturesOfCalling own
    (by rw [count]; decide) (by rw [imports, defined]; decide)
  have size := shows.size.trans count
  have input : program.modules[0]? = some first := by rw [modules]; rfl
  have input' : program.modules[1]? = some second := by rw [modules]; rfl
  have same : entries = [Program.emptySignature, [96, 0, 0], [96, 1, 127, 0], [96, 1, 127, 0]] := by
    have leading := shows.first calls
    have first' := shows.input 0 first 0 _ input rfl
    have second' := shows.input 0 first 1 _ input rfl
    have third' := shows.input 1 second 0 _ input' rfl
    rw [base] at first' second'
    rw [base'] at third'
    refine List.ext_getElem? fun k => ?_
    match k with
    | 0 => exact leading
    | 1 => exact first'
    | 2 => exact second'
    | 3 => exact third'
    | _ + 4 => rw [List.getElem?_eq_none (by omega)]; rfl
  obtain ⟨member, _, found, _, at_owner, here, start, -, operands, -⟩ :=
    Program.exists_of_copySite site
  obtain ⟨_, _, _, result, at_owner', here', -, -, within, applied⟩ := keeps.operand _ member
  cases at_owner.symm.trans at_owner'
  cases here.symm.trans here'
  obtain ⟨current, type, _, done, small, -, -⟩ := applied [] _ [] operands rfl
  have number : type = 3 := by
    have value := (Program.typeIndex_of_operandValue rfl done.computed).2
    rw [base'] at value
    exact Int.ofNat.inj value
  have new := done.kept (by simp)
  rw [small, number, Section.start, Section.position, start] at new
  exact ⟨program, entries, types, output, result, linked, own, same, listed, keeps, within, new⟩

end StaticLink
