import StaticLink.Proofs.Output.OptionalSections
import StaticLink.Proofs.Output.References
import StaticLink.Proofs.Program.Exports
import StaticLink.Proofs.Program.Sums

/-!
# What the linked module exports

There are four reasons for an export, and each of them goes by the name of a symbol. So two reasons
for one name are about the same symbol, and it does not matter which of them comes first. The memory
is the exception: its name is taken, whatever symbol has it.

* `Program.ExportsFunction`: the reasons to export a function; `Program.Exported`: all exports.
* `Program.Exported.unique`: a name is exported as one thing.
* `Program.ExportsNames`: what the list of exports is, with what a link that succeeds says of the
  names that it was asked for.
* `link_exportsNames`: the exports of a linked module are these.
-/

namespace StaticLink

namespace Program

/-- The symbol called `name` is exported as a function. -/
inductive ExportsFunction (names : List String) (name : String) (record : Symbol) : Prop
  | entryPoint (same : name = entryPointName) (own : record.target.hasOwnBody = true)
  | flagged (exported : record.isExported = true) (defined : record.isUndefined = false)
    (kind : record.target.kind = .function)
  | requested (listed : name ∈ names) (own : record.target.hasOwnBody = true)

/-- The linked module exports this kind and index as `name`, where functions called `names` are asked
for. -/
inductive Exported (program : Program) (names : List String) (name : String) :
    ExternalKind → Nat → Prop
  | memory (same : name = memoryName) : Exported program names name .memory 0
  | function {id : SymbolId} {record : Symbol} {index : Nat} (other : name ≠ memoryName)
    (known : program.symbols.lookup name = some id)
    (stands : program.symbols.get id = .ok record) (reason : ExportsFunction names name record)
    (found : program.functionIndex id = .ok index) : Exported program names name .function index
  | global {id : SymbolId} {record : Symbol} {index : Nat} (other : name ≠ memoryName)
    (known : program.symbols.lookup name = some id)
    (stands : program.symbols.get id = .ok record) (exported : record.isExported = true)
    (defined : record.isUndefined = false) (kind : record.target.kind = .global)
    (found : program.globalIndex id = .ok index) : Exported program names name .global index

/-- Every symbol that there is a reason to export has an index, and is listed with it. -/
structure Lists (program : Program) (names : List String)
    (listed : String × ExternalKind × Nat → Prop) : Prop where
  /-- A name that is asked for is that of a function with a body of its own. -/
  requested : ∀ name ∈ names, ∃ id record index, program.symbols.lookup name = some id ∧
    program.symbols.get id = .ok record ∧ record.target.hasOwnBody = true ∧
    program.functionIndex id = .ok index ∧ listed (name, .function, index)
  entryPoint : ∀ id record, program.symbols.lookup entryPointName = some id →
    program.symbols.get id = .ok record → record.target.hasOwnBody = true →
      ∃ index, program.functionIndex id = .ok index ∧ listed (entryPointName, .function, index)
  flaggedFunction : ∀ name id record, program.symbols.lookup name = some id →
    program.symbols.get id = .ok record → record.isExported = true → record.isUndefined = false →
      record.target.kind = .function →
        ∃ index, program.functionIndex id = .ok index ∧ listed (name, .function, index)
  flaggedGlobal : ∀ name id record, program.symbols.lookup name = some id →
    program.symbols.get id = .ok record → record.isExported = true → record.isUndefined = false →
      record.target.kind = .global →
        ∃ index, program.globalIndex id = .ok index ∧ listed (name, .global, index)

/-- The exports where functions called `names` are asked for. -/
structure ExportsNames (program : Program) (names : List String)
    (exports : List (String × ExternalKind × Nat)) : Prop where
  nodup : (exports.map (·.1)).Nodup
  mem_iff : ∀ name kind index,
    (name, kind, index) ∈ exports ↔ program.Exported names name kind index
  /-- Nothing is left out, unless it has the name of the memory. -/
  lists : program.Lists names fun entry => entry.1 ≠ memoryName → entry ∈ exports

variable {program : Program} {names : List String} {name : String} {id : SymbolId}
  {record : Symbol} {kind' kind'' : ExternalKind} {index index' : Nat}
  {exports : List (String × ExternalKind × Nat)} {found : String × ExternalKind × Nat}

/-! ## One name, one export -/

theorem kind_of_hasOwnBody {target : Target} (own : target.hasOwnBody = true) :
    target.kind = .function := by
  unfold Target.hasOwnBody at own
  split at own
  · rfl
  · rfl
  · cases own

theorem ExportsFunction.kind (reason : ExportsFunction names name record) :
    record.target.kind = .function := by
  cases reason with
  | entryPoint _ own => exact kind_of_hasOwnBody own
  | flagged _ _ kind => exact kind
  | requested _ own => exact kind_of_hasOwnBody own

/-- A name is exported as one thing, as all symbols that could be meant are the one of this name. -/
theorem Exported.unique (one : program.Exported names name kind' index)
    (two : program.Exported names name kind'' index') : kind' = kind'' ∧ index = index' := by
  cases one with
  | memory same =>
    cases two with
    | memory => exact ⟨rfl, rfl⟩
    | function other => exact absurd same other
    | global other => exact absurd same other
  | function other known stands reason found =>
    cases two with
    | memory same => exact absurd same other
    | function _ known' _ _ found' =>
      cases known.symm.trans known'
      exact ⟨rfl, Except.ok.inj (found.symm.trans found')⟩
    | global _ known' stands' _ _ kind =>
      cases known.symm.trans known'
      cases stands.symm.trans stands'
      cases reason.kind.symm.trans kind
  | global other known stands _ _ kind found =>
    cases two with
    | memory same => exact absurd same other
    | function _ known' stands' reason =>
      cases known.symm.trans known'
      cases stands.symm.trans stands'
      cases kind.symm.trans reason.kind
    | global _ known' _ _ _ _ found' =>
      cases known.symm.trans known'
      exact ⟨rfl, Except.ok.inj (found.symm.trans found')⟩

/-! ## What is listed for each reason -/

/-- The entry is that of a symbol, if the name is not that of the memory. -/
def Earned (program : Program) (names : List String) (entry : String × ExternalKind × Nat) : Prop :=
  entry.1 ≠ memoryName → program.Exported names entry.1 entry.2.1 entry.2.2

theorem definedFunction?_eq_some_iff (wf : program.symbols.WellFormed) :
    program.definedFunction? name = some id ↔ ∃ record, program.symbols.lookup name = some id ∧
      program.symbols.get id = .ok record ∧ record.target.hasOwnBody = true := by
  constructor
  · intro h
    obtain ⟨known, own⟩ := Option.filter_eq_some_iff.1 h
    obtain ⟨record, here, -⟩ := wf.named name id known
    rw [here, Option.any_some] at own
    exact ⟨record, known, existing_eq_ok.2 here, own⟩
  · rintro ⟨record, known, stands, own⟩
    refine Option.filter_eq_some_iff.2 ⟨known, ?_⟩
    rw [existing_eq_ok.1 stands, Option.any_some, own]

/-- What is exported as a function that is found by its name. -/
theorem earned_of_functionExport (wf : program.symbols.WellFormed)
    (defined : program.definedFunction? name = some id)
    (h : program.functionExport name id = .ok found)
    (reason : ∀ record : Symbol, record.target.hasOwnBody = true →
      ExportsFunction names name record) : program.Earned names found := by
  obtain ⟨record, known, stands, own⟩ := (definedFunction?_eq_some_iff wf).1 defined
  obtain ⟨index, here, rfl⟩ := return_eq_ok.1 h
  exact fun other => .function other known stands (reason record own) here

theorem earned_of_entryPointExports (wf : program.symbols.WellFormed)
    (h : program.entryPointExports = .ok exports) (member : found ∈ exports) :
    program.Earned names found := by
  obtain ⟨place, here⟩ := List.mem_iff_getElem?.1 member
  obtain ⟨id, listed, one⟩ := exists_item_of_mapM_eq_ok h here
  exact earned_of_functionExport wf (Option.mem_toList.1 (List.mem_of_getElem? listed)) one
    fun _ own => .entryPoint rfl own

theorem earned_of_requestedExports (wf : program.symbols.WellFormed)
    (h : program.requestedExports names = .ok exports) (member : found ∈ exports) :
    program.Earned names found := by
  obtain ⟨place, here⟩ := List.mem_iff_getElem?.1 member
  obtain ⟨name, listed, one⟩ := exists_item_of_mapM_eq_ok h here
  split at one
  · next id defined =>
    exact earned_of_functionExport wf defined one
      fun _ own => .requested (List.mem_of_getElem? listed) own
  · cases one

theorem mem_flaggedSymbols_iff (wf : program.symbols.WellFormed) :
    (id, record) ∈ program.flaggedSymbols ↔ program.symbols.lookup record.name = some id ∧
      program.symbols.get id = .ok record ∧ record.isExported = true ∧
      record.isUndefined = false ∧ record.target.kind ≠ .data := by
  rw [flaggedSymbols, List.mem_filter, wf.mem_symbols_iff, SymbolTable.get, existing_eq_ok,
    and_assoc]
  simp only [Bool.and_eq_true, Bool.not_eq_true', bne_iff_ne, and_assoc]

theorem earned_of_flaggedExports (wf : program.symbols.WellFormed)
    (h : program.flaggedExports = .ok exports) (member : found ∈ exports) :
    program.Earned names found := by
  obtain ⟨place, here⟩ := List.mem_iff_getElem?.1 member
  obtain ⟨⟨id, record⟩, listed, one⟩ := exists_item_of_mapM_eq_ok h here
  obtain ⟨known, stands, exported, defined, kind⟩ :=
    (mem_flaggedSymbols_iff wf).1 (List.mem_of_getElem? listed)
  dsimp only at one
  split at one
  · next global =>
    obtain ⟨index, indexed, rfl⟩ := return_eq_ok.1 one
    exact fun other => .global other known stands exported defined global indexed
  · next other =>
    have function : record.target.kind = .function := by
      rcases which : record.target.kind with _ | _ | _
      · rfl
      · exact absurd which other
      · exact absurd which kind
    obtain ⟨index, indexed, rfl⟩ := return_eq_ok.1 one
    exact fun other => .function other known stands (.flagged exported defined function) indexed

/-! ## All exports -/

theorem Lists.imp {listed shown : String × ExternalKind × Nat → Prop}
    (lists : program.Lists names listed) (imp : ∀ entry, listed entry → shown entry) :
    program.Lists names shown where
  requested name asked := by
    obtain ⟨id, record, index, known, stands, own, found, here⟩ := lists.requested name asked
    exact ⟨id, record, index, known, stands, own, found, imp _ here⟩
  entryPoint id record known stands own := by
    obtain ⟨index, found, here⟩ := lists.entryPoint id record known stands own
    exact ⟨index, found, imp _ here⟩
  flaggedFunction name id record known stands exported defined kind := by
    obtain ⟨index, found, here⟩ :=
      lists.flaggedFunction name id record known stands exported defined kind
    exact ⟨index, found, imp _ here⟩
  flaggedGlobal name id record known stands exported defined kind := by
    obtain ⟨index, found, here⟩ :=
      lists.flaggedGlobal name id record known stands exported defined kind
    exact ⟨index, found, imp _ here⟩

theorem lists_of_exports (wf : program.symbols.WellFormed)
    {entryPoint flagged requested : List (String × ExternalKind × Nat)}
    (one : program.entryPointExports = .ok entryPoint)
    (two : program.flaggedExports = .ok flagged)
    (three : program.requestedExports names = .ok requested) :
    program.Lists names (· ∈ entryPoint ++ flagged ++ requested) where
  requested name asked := by
    obtain ⟨entry, member, step⟩ := exists_of_mapM_eq_ok three asked
    split at step
    · next id defined =>
      obtain ⟨record, known, stands, own⟩ := (definedFunction?_eq_some_iff wf).1 defined
      obtain ⟨index, here, rfl⟩ := return_eq_ok.1 step
      exact ⟨id, record, index, known, stands, own, here, List.mem_append_right _ member⟩
    · cases step
  entryPoint id record known stands own := by
    have defined := (definedFunction?_eq_some_iff wf).2 ⟨record, known, stands, own⟩
    obtain ⟨entry, member, step⟩ := exists_of_mapM_eq_ok one (Option.mem_toList.2 defined)
    obtain ⟨index, here, rfl⟩ := return_eq_ok.1 step
    exact ⟨index, here, List.mem_append_left _ (List.mem_append_left _ member)⟩
  flaggedFunction name id record known stands exported defined kind := by
    obtain rfl := wf.name_eq known (existing_eq_ok.1 stands)
    have picked := (mem_flaggedSymbols_iff wf).2
      ⟨known, stands, exported, defined, by rw [kind]; decide⟩
    obtain ⟨entry, member, step⟩ := exists_of_mapM_eq_ok two picked
    dsimp only at step
    rw [if_neg (by rw [kind]; decide)] at step
    obtain ⟨index, here, rfl⟩ := return_eq_ok.1 step
    exact ⟨index, here, List.mem_append_left _ (List.mem_append_right _ member)⟩
  flaggedGlobal name id record known stands exported defined kind := by
    obtain rfl := wf.name_eq known (existing_eq_ok.1 stands)
    have picked := (mem_flaggedSymbols_iff wf).2
      ⟨known, stands, exported, defined, by rw [kind]; decide⟩
    obtain ⟨entry, member, step⟩ := exists_of_mapM_eq_ok two picked
    dsimp only at step
    rw [if_pos kind] at step
    obtain ⟨index, here, rfl⟩ := return_eq_ok.1 step
    exact ⟨index, here, List.mem_append_left _ (List.mem_append_right _ member)⟩

section Entries

variable {listed : List (String × ExternalKind × Nat)}

/-- Of the entries that count the first is the memory, and every other one is earned. -/
theorem exported_of_mem (earned : ∀ entry ∈ listed, program.Earned names entry)
    (member : (name, kind', index) ∈ firstOfKeys ((memoryName, .memory, 0) :: listed)) :
    program.Exported names name kind' index := by
  by_cases here : name = memoryName
  · subst here
    have memory : (memoryName, ExternalKind.memory, 0) ∈
        firstOfKeys ((memoryName, ExternalKind.memory, 0) :: listed) := List.mem_cons_self
    cases List.inj_on_of_nodup_map (keys_nodup_firstOfKeys _) member memory rfl
    exact .memory rfl
  · rcases List.mem_cons.1 ((firstOfKeys_sublist _).subset member) with head | member
    · cases head
      exact absurd rfl here
    · exact earned _ member here

/-- The entry that counts for a name says the same as any other for this name. -/
theorem mem_firstOfKeys_of_earned (earned : ∀ entry ∈ listed, program.Earned names entry)
    (member : found ∈ listed) (other : found.1 ≠ memoryName) :
    found ∈ firstOfKeys ((memoryName, .memory, 0) :: listed) := by
  have key : found.1 ∈ (firstOfKeys ((memoryName, .memory, 0) :: listed)).map (·.1) :=
    mem_keys_firstOfKeys.2 (List.mem_map.2 ⟨_, List.mem_cons_of_mem _ member, rfl⟩)
  obtain ⟨⟨name, kind, index⟩, first, same⟩ := List.mem_map.1 key
  obtain ⟨found, kind', index'⟩ := found
  cases same
  obtain ⟨rfl, rfl⟩ := (earned _ member other).unique (exported_of_mem earned first)
  exact first

end Entries

/-- What is earned is listed. -/
theorem Lists.mem_of_exported
    (lists : program.Lists names fun entry => entry.1 ≠ memoryName → entry ∈ exports)
    (memory : (memoryName, .memory, 0) ∈ exports)
    (exported : program.Exported names name kind' index) : (name, kind', index) ∈ exports := by
  cases exported with
  | memory same =>
    rw [same]
    exact memory
  | function other known stands reason found =>
    cases reason with
    | entryPoint same own =>
      subst same
      obtain ⟨_, here, member⟩ := lists.entryPoint _ _ known stands own
      cases found.symm.trans here
      exact member other
    | flagged exported defined kind =>
      obtain ⟨_, here, member⟩ :=
        lists.flaggedFunction _ _ _ known stands exported defined kind
      cases found.symm.trans here
      exact member other
    | requested asked =>
      obtain ⟨_, _, _, known', -, -, here, member⟩ := lists.requested _ asked
      cases known.symm.trans known'
      cases found.symm.trans here
      exact member other
  | global other known stands exported defined kind found =>
    obtain ⟨_, here, member⟩ := lists.flaggedGlobal _ _ _ known stands exported defined kind
    cases found.symm.trans here
    exact member other

theorem exportsNames_of_exports (wf : program.symbols.WellFormed)
    (h : program.exports names = .ok exports) : program.ExportsNames names exports := by
  obtain ⟨entryPoint, one, h⟩ := bind_eq_ok.1 h
  obtain ⟨flagged, two, h⟩ := bind_eq_ok.1 h
  obtain ⟨requested, three, rfl⟩ := return_eq_ok.1 h
  have earned : ∀ entry ∈ entryPoint ++ flagged ++ requested, program.Earned names entry := by
    intro entry member
    rcases List.mem_append.1 member with member | member
    · rcases List.mem_append.1 member with member | member
      · exact earned_of_entryPointExports wf one member
      · exact earned_of_flaggedExports wf two member
    · exact earned_of_requestedExports wf three member
  have lists := (lists_of_exports wf one two three).imp fun entry member =>
    mem_firstOfKeys_of_earned earned member
  exact ⟨keys_nodup_firstOfKeys _, fun _ _ _ => ⟨exported_of_mem earned,
    lists.mem_of_exported List.mem_cons_self⟩, lists⟩

end Program

/-- The exports of a linked module are the memory and what there is a reason to export: each name once,
for a symbol with the kind and the index of that symbol. -/
theorem link_exportsNames {inputs : List (String × Bytes)} {options : Options} {output : Bytes}
    (linked : link inputs options = .ok output) :
    ∃ program interface contents, Program.ofInputs inputs options = .ok program ∧
      program.interface options = .ok interface ∧ program.Written interface contents output ∧
      program.ExportsNames options.exports interface.exports ∧
      (interface.exports.length < wordLimit → contents .exports =
        some (Program.encodeNat interface.exports.length ++
          Program.exportEntries interface.exports)) ∧
      (totalSize inputs < wordLimit → interface.exports.length < wordLimit ∧
        ∀ entry ∈ interface.exports, entry.2.2 < wordLimit) := by
  obtain ⟨program, interface, decided, shown, written⟩ := exists_written_of_link linked
  have wf := (Program.sound_of_ofInputs decided).wellFormed
  have listed := (Program.interface_eq_ok_iff.1 shown).1
  have exportsNames := Program.exportsNames_of_exports wf listed
  refine ⟨program, interface, _, decided, shown, written, exportsNames, ?_, fun small => ⟨?_, ?_⟩⟩
  · exact exports_of_written (Program.ne_nil_of_exports listed) written
  · have few := Program.length_exports_le wf listed
    exact (Program.measured_of_ofInputs decided).lt_wordLimit small
      (Nat.le_trans few (by omega))
  · rintro ⟨name, kind, index⟩ member
    have bounded := Program.bounded_of_ofInputs decided
    have measured := Program.measured_of_ofInputs decided
    have sums {number : Nat} (sum : program.Sum number True) : number < wordLimit :=
      measured.lt_wordLimit small (bounded.few_of_sum sum trivial)
    cases (exportsNames.mem_iff name kind index).1 member with
    | memory => exact Nat.zero_lt_succ _
    | function _ _ _ _ found => exact sums (.symbolFunction found)
    | global _ _ _ _ _ _ found => exact sums (.symbolGlobal found)

/-- An input with an entry point, a global that is to be exported and one more function. -/
def exporting : List (String × Bytes) :=
  [("exporting.o",
      [0, 97, 115, 109, 1, 0, 0, 0, 1, 4, 1, 96, 0, 0, 3, 3, 2, 0, 0, 6, 6, 1, 127, 0, 65, 0, 11, 10,
        7, 2, 2, 0, 11, 2, 0, 11, 0, 32, 7, 108, 105, 110, 107, 105, 110, 103, 2, 8, 21, 3, 0, 0, 0,
        6, 95, 115, 116, 97, 114, 116, 0, 0, 1, 1, 102, 2, 32, 0, 1, 103])]

/-- The global comes before the function that is asked for. -/
theorem link_exporting_names : ∃ (program : Program) (interface : Interface),
    Program.ofInputs exporting { exports := ["f"] } = .ok program ∧
      interface.exports = [(memoryName, .memory, 0), (entryPointName, .function, 0),
        ("g", .global, 1), ("f", .function, 1)] ∧
      program.ExportsNames ["f"] interface.exports := by
  have succeeds : (link exporting { exports := ["f"] }).isOk = true := by decide +kernel
  have facts : (Program.ofInputs exporting { exports := ["f"] } >>= (·.exports ["f"])) =
      .ok [(memoryName, .memory, 0), (entryPointName, .function, 0), ("g", .global, 1),
        ("f", .function, 1)] := by decide +kernel
  obtain ⟨output, linked⟩ := exists_of_isOk succeeds
  obtain ⟨program, interface, _, decided, shown, -, exportsNames, -⟩ := link_exportsNames linked
  rw [decided] at facts
  have listed := (Program.interface_eq_ok_iff.1 shown).1
  exact ⟨program, interface, decided, Except.ok.inj (listed.symm.trans facts), exportsNames⟩

/-- An input with a function that has the name of the memory, and a global that has the name of the
entry point. -/
def unexported : List (String × Bytes) :=
  [("unexported.o",
      [0, 97, 115, 109, 1, 0, 0, 0, 1, 4, 1, 96, 0, 0, 3, 2, 1, 0, 6, 6, 1, 127, 0, 65, 0, 11, 10, 4,
        1, 2, 0, 11, 0, 32, 7, 108, 105, 110, 107, 105, 110, 103, 2, 8, 21, 2, 0, 0, 0, 6, 109, 101,
        109, 111, 114, 121, 2, 0, 0, 6, 95, 115, 116, 97, 114, 116])]

/-- Neither is exported, although the function is asked for. -/
theorem link_unexported : ∃ (program : Program) (interface : Interface) (output : Bytes),
    link unexported { exports := [memoryName] } = .ok output ∧
      Program.ofInputs unexported { exports := [memoryName] } = .ok program ∧
      program.interface { exports := [memoryName] } = .ok interface ∧
      program.definedFunction? memoryName = some 0 ∧ program.functionIndex 0 = .ok 0 ∧
      program.symbols.lookup entryPointName = some 1 ∧
      (program.symbols.records[1]?).map (·.target) = some (.global (.defined 0 0)) ∧
      interface.exports = [(memoryName, .memory, 0)] := by
  have succeeds : (link unexported { exports := [memoryName] }).isOk = true := by decide +kernel
  have facts : ((Program.ofInputs unexported { exports := [memoryName] }).map fun program =>
      (program.definedFunction? memoryName, program.functionIndex 0,
        program.symbols.lookup entryPointName, (program.symbols.records[1]?).map (·.target))) =
        .ok (some 0, .ok 0, some 1, some (.global (.defined 0 0))) := by decide +kernel
  have exports : (Program.ofInputs unexported { exports := [memoryName] } >>=
      (·.exports [memoryName])) = .ok [(memoryName, .memory, 0)] := by decide +kernel
  obtain ⟨output, linked⟩ := exists_of_isOk succeeds
  obtain ⟨program, interface, decided, shown, -⟩ := exists_written_of_link linked
  rw [decided] at facts exports
  obtain ⟨function, facts⟩ := Prod.mk.inj (Except.ok.inj facts)
  obtain ⟨index, facts⟩ := Prod.mk.inj facts
  obtain ⟨known, target⟩ := Prod.mk.inj facts
  have listed := (Program.interface_eq_ok_iff.1 shown).1
  exact ⟨program, interface, output, linked, decided, shown, function, index, known, target,
    Except.ok.inj (listed.symm.trans exports)⟩

end StaticLink
