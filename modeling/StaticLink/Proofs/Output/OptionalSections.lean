import Mathlib.Logic.Function.Basic
import StaticLink.Proofs.Output.ReadBack
import StaticLink.Proofs.Program.Names

/-!
# The sections that a link may be asked for

A link may be asked for a start function and for the names of functions. Each is a section of its
own, and the rest of the linked module does not depend on it.

* `Program.encode_eq_ok_iff`: a program can be written exactly if each of its sections can be.
* `Program.Written.withStart`, `Program.Written.withNames`: such a section can be put in or left
  out.
* `Program.exists_start`: what goes into the one for the start function always exists.
* `OptionalSections`: how the results of links with and without these sections are related.
* `link_optionalSections`: they are related so; `link_strayName`: two inputs that can be linked, but not
  with names, as one of these has no index of 32 bits.
-/

namespace StaticLink

theorem Leb128.length_ofUInt32_le (value : UInt32) : (ofUInt32 value).length ≤ 5 := by
  have limit : powerOfTwo (7 * 5) = 34359738368 := rfl
  have small := value.toNat_lt
  rw [ofUInt32, encodeUnsigned, length_spell, Nat.zero_max]
  exact unsignedWidth_le (by decide) (by omega)

/-! ## Sections that can be written -/

namespace Writer

variable {writer next : Writer} {id : SectionId}

@[simp] theorem append_nil (writer : Writer) : writer.append [] = writer := by simp [append]

theorem append_append (writer : Writer) (first second : Bytes) :
    (writer.append first).append second = writer.append (first ++ second) := by simp [append]

theorem eq_append_of_bytes {bytes : Bytes} (same : next.bytes = writer.bytes ++ bytes) :
    next = writer.append bytes := by
  cases next
  cases same
  rfl

theorem addVector_of_puts {count : UInt32} {entries : Except Error Bytes}
    (puts : Puts writer next id (vectorContents count entries)) :
    writer.addVector id count entries = .ok next := by
  obtain ⟨made, produced, small, bytes⟩ := puts
  obtain rfl := eq_append_of_bytes bytes
  unfold addVector
  rcases vectorContents_eq_ok produced with ⟨none, rfl⟩ | ⟨any, contents, here, rfl⟩
  · rw [if_pos none, Option.elim_none, append_nil]
    rfl
  · rw [if_neg any]
    exact bind_eq_ok.2 ⟨contents, here, addSection_eq_ok_iff.2 ⟨small _ rfl, rfl⟩⟩

end Writer

namespace Program

open Writer (Puts addVector_of_puts)

variable {program : Program} {interface : Interface} {writer next : Writer} {output : Bytes}
  {contents : SectionId → Option Bytes} {options : Options}

theorem Writes.split (earlier : List SectionId) {later : List SectionId}
    (writes : program.Writes interface writer next (earlier ++ later)) :
    ∃ middle, program.Writes interface writer middle earlier ∧
      program.Writes interface middle next later := by
  induction earlier generalizing writer with
  | nil => exact ⟨writer, .none writer, writes⟩
  | cons id earlier ih =>
    cases writes with
    | more first rest =>
      obtain ⟨middle, before, after⟩ := ih rest
      exact ⟨middle, .more first before, after⟩

theorem Writes.puts {id : SectionId} (writes : program.Writes interface writer next [id]) :
    Puts writer next id (program.sectionContents interface id) := by
  cases writes with
  | more first rest =>
    cases rest
    exact first

theorem writeDeclarations_of_writes (writes : program.Writes interface writer next
    [.types, .imports, .functions, .tables, .memories, .globals, .exports]) :
    program.writeDeclarations interface writer = .ok next := by
  cases writes with | more types writes =>
  cases writes with | more imports writes =>
  cases writes with | more functions writes =>
  cases writes with | more tables writes =>
  cases writes with | more memories writes =>
  cases writes with | more globals writes =>
  refine bind_eq_ok.2 ⟨_, addVector_of_puts types, bind_eq_ok.2 ⟨_, addVector_of_puts imports, ?_⟩⟩
  refine bind_eq_ok.2 ⟨_, addVector_of_puts functions, ?_⟩
  refine bind_eq_ok.2 ⟨_, addVector_of_puts tables, ?_⟩
  refine bind_eq_ok.2 ⟨_, addVector_of_puts memories, ?_⟩
  exact bind_eq_ok.2 ⟨_, addVector_of_puts globals, addVector_of_puts writes.puts⟩

theorem writeContents_of_writes (writes : program.Writes interface writer next
    [.elements, .code, .data]) : program.writeContents writer = .ok next := by
  cases writes with | more elements writes =>
  cases writes with | more code writes =>
  refine bind_eq_ok.2 ⟨_, addVector_of_puts elements, ?_⟩
  exact bind_eq_ok.2 ⟨_, addVector_of_puts code, addVector_of_puts writes.puts⟩

theorem writeStart_of_puts
    (puts : Puts writer next .start (program.sectionContents interface .start)) :
    writeStart interface.start writer = .ok next := by
  obtain ⟨made, produced, small, bytes⟩ := puts
  obtain rfl := Writer.eq_append_of_bytes bytes
  cases produced
  rcases start : interface.start with _ | function
  · rw [Option.map_none, Option.elim_none, Writer.append_nil]
    rfl
  · rw [start] at small
    exact Writer.addSection_eq_ok_iff.2 ⟨small _ rfl, rfl⟩

/-- The names of functions can be written if their section is not too large, as then the one
subsection in it is not too large either. -/
theorem writeNames_of_puts
    (puts : Puts writer next .custom (program.sectionContents interface .custom)) :
    writeNames interface.functionNames writer = .ok next := by
  obtain ⟨made, produced, small, bytes⟩ := puts
  obtain rfl := Writer.eq_append_of_bytes bytes
  cases produced
  rcases listed : interface.functionNames with _ | names
  · rw [Option.map_none, Option.elim_none, Writer.append_nil]
    rfl
  · rw [listed] at small
    have few : (nameContents names).length < wordLimit := small _ rfl
    have inner : (functionNameContents names).length < wordLimit := by
      rw [nameContents, List.length_append, List.length_append] at few
      omega
    refine bind_eq_ok.2 ⟨_, (Writer.closeSize_append_eq_ok_iff _ rfl).2 ⟨inner, rfl⟩, ?_⟩
    refine Eq.trans ?_ (Writer.addSection_eq_ok_iff.2 ⟨few, rfl⟩)
    refine congrArg (Writer.closeSize · ⟨(writer.append [SectionId.custom.toByte]).size⟩) ?_
    simp [Writer.append, nameContents, functionNameContents, functionNameEntries]

theorem Written.writes (written : program.Written interface contents output) (writer : Writer)
    (ids : List SectionId) :
    program.Writes interface writer
      (writer.append (ids.flatMap fun id => (contents id).elim [] id.frame)) ids := by
  induction ids generalizing writer with
  | nil =>
    rw [List.flatMap_nil, Writer.append_nil]
    exact .none writer
  | cons id ids ih =>
    have later := ih (writer.append ((contents id).elim [] id.frame))
    rw [Writer.append_append] at later
    exact .more ⟨contents id, written.made id, written.small id, rfl⟩ later

/-- What a program is written as is determined by its sections, and it can be written if each of
them can be. -/
theorem encode_eq_ok_iff : program.encode interface = .ok output ↔
    ∃ contents, program.Written interface contents output := by
  refine ⟨fun encoded => ⟨_, written_of_encode encoded⟩, ?_⟩
  rintro ⟨contents, written⟩
  have bytes := written.bytes
  have writes := written.writes ⟨Header.encode⟩ SectionId.outputOrder
  obtain ⟨declared, declarations, writes⟩ := writes.split
    [.types, .imports, .functions, .tables, .memories, .globals, .exports]
  obtain ⟨started, start, writes⟩ := writes.split [.start]
  obtain ⟨filled, filling, names⟩ := writes.split [.elements, .code, .data]
  rw [encode_eq]
  refine bind_eq_ok.2 ⟨_, inWord_eq_ok.2 ⟨written.counted, rfl⟩, ?_⟩
  refine bind_eq_ok.2 ⟨declared, writeDeclarations_of_writes declarations, ?_⟩
  refine bind_eq_ok.2 ⟨started, writeStart_of_puts start.puts, ?_⟩
  refine bind_eq_ok.2 ⟨filled, writeContents_of_writes filling, ?_⟩
  exact return_eq_ok.2 ⟨_, writeNames_of_puts names.puts, bytes.symm⟩

/-! ## Other sections in their place -/

/-- Another start function is nothing but another section for it. -/
theorem Written.withStart (written : program.Written interface contents output)
    (start : Option Nat) :
    program.Written { interface with start }
      (Function.update contents .start (start.map encodeNat))
      (moduleBytes (Function.update contents .start (start.map encodeNat))) where
  made id := by
    by_cases here : id = .start
    · rw [here, Function.update_self]
      rfl
    · rw [Function.update_of_ne here, ← written.made id]
      cases id <;> first | rfl | exact absurd rfl here
  small id := by
    by_cases here : id = .start
    · rw [here, Function.update_self]
      intro bytes made
      obtain ⟨function, -, rfl⟩ := Option.map_eq_some_iff.1 made
      exact Nat.lt_of_le_of_lt (Leb128.length_ofUInt32_le _) (by decide)
    · rw [Function.update_of_ne here]
      exact written.small id
  bytes := rfl
  counted := written.counted

/-- Other names of functions are nothing but another section for them. -/
theorem Written.withNames (written : program.Written interface contents output)
    (functionNames : Option (List (UInt32 × String)))
    (few : ∀ names, functionNames = some names → (nameContents names).length < wordLimit) :
    program.Written { interface with functionNames }
      (Function.update contents .custom (functionNames.map nameContents))
      (moduleBytes (Function.update contents .custom (functionNames.map nameContents))) where
  made id := by
    by_cases here : id = .custom
    · rw [here, Function.update_self]
      rfl
    · rw [Function.update_of_ne here, ← written.made id]
      cases id <;> first | rfl | exact absurd rfl here
  small id := by
    by_cases here : id = .custom
    · rw [here, Function.update_self]
      intro bytes made
      obtain ⟨names, listed, rfl⟩ := Option.map_eq_some_iff.1 made
      exact few names listed
    · rw [Function.update_of_ne here]
      exact written.small id
  bytes := rfl
  counted := written.counted

/-! ## What goes into the sections -/

/-- The symbol is the entry point, and an input defines it strongly. -/
def IsEntryPoint (program : Program) (id : SymbolId) : Prop :=
  program.symbols.lookup entryPointName = some id ∧ ∃ symbol owner position,
    program.symbols.get id = .ok symbol ∧ symbol.isWeak = false ∧
      symbol.target = .function (.defined owner position)

variable {inputs : List (String × Bytes)}

/-- There is a function to start with exactly if an input defines the entry point strongly. -/
theorem exists_start (decided : ofInputs inputs options = .ok program) :
    ∃ start, program.start = .ok start ∧
      (start.isSome = true ↔ ∃ id, program.IsEntryPoint id) ∧
      ∀ id, program.IsEntryPoint id →
        ∃ index, program.functionIndex id = .ok index ∧ start = some index := by
  have sound := sound_of_ofInputs decided
  unfold start
  rcases known : program.symbols.lookup entryPointName with _ | id
  · have none (id : SymbolId) : ¬ program.IsEntryPoint id := by
      rintro ⟨other, -⟩
      rw [known] at other
      cases other
    exact ⟨.none, rfl, by simp [none], fun id entry => absurd entry (none id)⟩
  · obtain ⟨symbol, here, -⟩ := sound.wellFormed.named _ id known
    have stands : program.symbols.get id = .ok symbol := existing_eq_ok.2 here
    have unique {other : SymbolId} (entry : program.IsEntryPoint other) : other = id :=
      (Option.some.inj (known.symm.trans entry.1)).symm
    by_cases entry : program.IsEntryPoint id
    · obtain ⟨-, _, owner, position, stands', strong, target⟩ := entry
      obtain rfl := Except.ok.inj (stands.symm.trans stands')
      obtain ⟨module, input, -⟩ := sound.target_within stands owner (by rw [target]; rfl)
      have index : program.functionIndex id =
          .ok (program.functionBase owner + position.toNat) := by
        refine bind_eq_ok.2 ⟨symbol, stands, ?_⟩
        rw [target]
        exact bind_eq_ok.2 ⟨module, existing_eq_ok.2 input, rfl⟩
      refine ⟨some (program.functionBase owner + position.toNat),
        bind_eq_ok.2 ⟨symbol, stands, ?_⟩, ?_, ?_⟩
      · rw [target, strong, index]
        rfl
      · exact ⟨fun _ => ⟨id, known, symbol, owner, position, stands, strong, target⟩, fun _ => rfl⟩
      · intro other entry
        rw [unique entry]
        exact ⟨_, index, rfl⟩
    · have none (other : SymbolId) : ¬ program.IsEntryPoint other := by
        intro entry'
        rw [unique entry'] at entry'
        exact entry entry'
      refine ⟨.none, bind_eq_ok.2 ⟨symbol, stands, ?_⟩, by simp [none],
        fun id entry => absurd entry (none id)⟩
      split
      · next owner position target strong =>
        exact absurd ⟨known, symbol, owner, position, stands, strong, target⟩ entry
      · rfl

/-- The start function and the names are found if the options ask for them. -/
theorem interface_eq (program : Program) (options : Options) :
    program.interface options = (do
      let exports ← program.exports options.exports
      let start ← (if options.emitStart then program.start else .ok none :)
      let functionNames ←
        (if options.debugNames then some <$> program.functionNames else .ok none :)
      return { exports, start, functionNames }) := by
  unfold Program.interface
  cases options.emitStart <;> cases options.debugNames <;> rfl

theorem interface_eq_ok_iff : program.interface options = .ok interface ↔
    program.exports options.exports = .ok interface.exports ∧
      (if options.emitStart then program.start else .ok none) = .ok interface.start ∧
      (if options.debugNames then some <$> program.functionNames else .ok none) =
        .ok interface.functionNames := by
  rw [interface_eq]
  constructor
  · intro h
    obtain ⟨exports, listed, h⟩ := bind_eq_ok.1 h
    obtain ⟨start, found, h⟩ := bind_eq_ok.1 h
    obtain ⟨names, named, rfl⟩ := return_eq_ok.1 h
    exact ⟨listed, found, named⟩
  · rintro ⟨listed, found, named⟩
    refine bind_eq_ok.2 ⟨_, listed, bind_eq_ok.2 ⟨_, found, ?_⟩⟩
    exact return_eq_ok.2 ⟨_, named, rfl⟩

/-- Whatever else is exported, the memory is. -/
theorem ne_nil_of_exports {requests : List String} {exports : List (String × ExternalKind × Nat)}
    (h : program.exports requests = .ok exports) : exports ≠ [] := by
  obtain ⟨entryPoint, -, h⟩ := bind_eq_ok.1 h
  obtain ⟨flagged, -, h⟩ := bind_eq_ok.1 h
  obtain ⟨requested, -, rfl⟩ := return_eq_ok.1 h
  exact List.cons_ne_nil _ _

end Program

/-! ## Links with and without the sections -/

namespace SectionId

/-- The sections up to the exports, behind which the start function stands. -/
def throughExports : List SectionId :=
  [.types, .imports, .functions, .tables, .memories, .globals, .exports]

/-- The sections behind the start function. -/
def behindStart : List SectionId := [.elements, .code, .data, .custom]

end SectionId

/-- Those of the sections that have contents, one behind the other. -/
def rowBytes (contents : SectionId → Option Bytes) (ids : List SectionId) : Bytes :=
  ids.flatMap fun id => (contents id).elim [] id.frame

/-- The section for the start function stands directly behind the exports. -/
theorem moduleBytes_update_start (contents : SectionId → Option Bytes) (made : Option Bytes) :
    moduleBytes (Function.update contents .start made) =
      Header.encode ++ rowBytes contents SectionId.throughExports ++
        (made.elim [] SectionId.start.frame ++ rowBytes contents SectionId.behindStart) := by
  simp [moduleBytes, rowBytes, SectionId.outputOrder, SectionId.throughExports,
    SectionId.behindStart]

/-- The names of functions stand at the end of the module. -/
theorem moduleBytes_update_custom {contents : SectionId → Option Bytes}
    (unnamed : contents .custom = none) (made : Option Bytes) :
    moduleBytes (Function.update contents .custom made) =
      moduleBytes contents ++ made.elim [] SectionId.custom.frame := by
  simp [moduleBytes, SectionId.outputOrder, unnamed]

/-- How the linked module `plain` of a program, which has neither a section for a start function nor
one for names, is related to those that the same inputs are linked to if the options ask for one of
them. -/
structure OptionalSections (inputs : List (String × Bytes)) (options : Options) (plain : Bytes)
    (program : Program) (contents : SectionId → Option Bytes) (start : Option Nat) : Prop where
  decided : Program.ofInputs inputs options = .ok program
  bytes : plain = Header.encode ++ rowBytes contents SectionId.throughExports ++
    rowBytes contents SectionId.behindStart
  /-- There is a section of exports, as the memory is exported. -/
  exports : ∃ exports, program.exports options.exports = .ok exports ∧ exports ≠ [] ∧
    (exports.length < wordLimit → contents .exports =
      some (Program.encodeNat exports.length ++ Program.exportEntries exports))
  /-- The names that the inputs give can be put together exactly if their indices are words. -/
  names_iff : (∃ names, program.functionNames = .ok names) ↔ program.NamesFit
  /-- With names a section for them comes at the end, and nothing else can be wrong but its size. -/
  withNames : ∀ named, link inputs { options with debugNames := true } = .ok named ↔
    ∃ names, program.functionNames = .ok names ∧
      (Program.nameContents names).length < wordLimit ∧
      named = plain ++ SectionId.custom.frame (Program.nameContents names)
  /-- With a name whose index is too large, a link with names does not even come to an error. -/
  overflow : ¬ program.NamesFit →
    link inputs { options with debugNames := true } = .error .overflow
  /-- There is a start function exactly if an input defines the entry point strongly. -/
  starts : start.isSome = true ↔ ∃ id, program.IsEntryPoint id
  startIndex : ∀ id, program.IsEntryPoint id →
    ∃ index, program.functionIndex id = .ok index ∧ start = some index
  /-- With a start function a section for it comes behind the exports. -/
  withStart : link inputs { options with emitStart := true } =
    .ok (Header.encode ++ rowBytes contents SectionId.throughExports ++
      (start.elim [] (SectionId.start.frame ∘ Program.encodeNat) ++
        rowBytes contents SectionId.behindStart))

variable {inputs : List (String × Bytes)} {options : Options} {output : Bytes}

/-- A link succeeds exactly if everything is decided and every section can be written. -/
theorem link_eq_ok_iff : link inputs options = .ok output ↔
    ∃ program interface contents, Program.ofInputs inputs options = .ok program ∧
      program.interface options = .ok interface ∧ program.Written interface contents output := by
  rw [link_eq]
  constructor
  · intro h
    obtain ⟨program, decided, h⟩ := bind_eq_ok.1 h
    obtain ⟨interface, shown, encoded⟩ := bind_eq_ok.1 h
    obtain ⟨contents, written⟩ := Program.encode_eq_ok_iff.1 encoded
    exact ⟨program, interface, contents, decided, shown, written⟩
  · rintro ⟨program, interface, contents, decided, shown, written⟩
    refine bind_eq_ok.2 ⟨program, decided, bind_eq_ok.2 ⟨interface, shown, ?_⟩⟩
    exact Program.encode_eq_ok_iff.2 ⟨contents, written⟩

/-- A section for a start function or for names is all that a link is asked for with an option, so
that it succeeds without it if it succeeds with it. -/
theorem exists_plain_of_link {emitStart debugNames : Bool} (unstarted : options.emitStart = false)
    (unnamed : options.debugNames = false)
    (linked : link inputs { options with emitStart, debugNames } = .ok output) :
    ∃ plain, link inputs options = .ok plain := by
  obtain ⟨program, interface, contents, decided, shown, written⟩ := link_eq_ok_iff.1 linked
  obtain ⟨listed, -, -⟩ := Program.interface_eq_ok_iff.1 shown
  refine ⟨_, link_eq_ok_iff.2 ⟨program, ⟨interface.exports, none, none⟩, _, decided, ?_,
    (written.withStart none).withNames none (by simp)⟩⟩
  refine Program.interface_eq_ok_iff.2 ⟨listed, ?_, ?_⟩
  · rw [unstarted]
    rfl
  · rw [unnamed]
    rfl

/-- Whatever was linked with names has a section for them, so that this is not too large. -/
theorem exists_names_of_link {program : Program} (wanted : options.debugNames = true)
    (decided : Program.ofInputs inputs options = .ok program)
    (linked : link inputs options = .ok output) :
    ∃ names, program.functionNames = .ok names ∧
      (Program.nameContents names).length < wordLimit := by
  obtain ⟨_, interface, contents, decided', shown, written⟩ := link_eq_ok_iff.1 linked
  obtain rfl := Except.ok.inj (decided.symm.trans decided')
  obtain ⟨-, -, listed⟩ := Program.interface_eq_ok_iff.1 shown
  rw [if_pos wanted] at listed
  obtain ⟨names, named, shows⟩ := return_eq_ok.1 listed
  have section' := written.made .custom
  rw [Program.sectionContents, ← shows] at section'
  exact ⟨names, named, written.small .custom _ (Except.ok.inj section').symm⟩

section

variable {program : Program} {exports : List (String × ExternalKind × Nat)}
  {contents : SectionId → Option Bytes} {plain : Bytes}

/-- If there are exports, their section holds their count and then all of them. -/
theorem exports_of_written {interface : Interface} (some : interface.exports ≠ [])
    (written : program.Written interface contents plain)
    (few : interface.exports.length < wordLimit) :
    contents .exports = .some (Program.encodeNat interface.exports.length ++
      Program.exportEntries interface.exports) := by
  have count : UInt32.ofNat interface.exports.length ≠ 0 := by
    intro zero
    have length := UInt32.toNat_ofNat_of_lt' few
    rw [zero] at length
    exact some (List.length_eq_zero_iff.1 length.symm)
  have section' := written.made .exports
  rw [Program.sectionContents, vectorContents, if_neg count] at section'
  exact (Except.ok.inj section').symm

variable (decided : Program.ofInputs inputs options = .ok program)
  (listed : program.exports options.exports = .ok exports)
  (written : program.Written ⟨exports, none, none⟩ contents plain)
include decided listed written

/-- With names, their section comes behind what is linked without them. -/
theorem link_withNames (unstarted : options.emitStart = false) {names : List (UInt32 × String)}
    (named : program.functionNames = .ok names)
    (few : (Program.nameContents names).length < wordLimit) :
    link inputs { options with debugNames := true } =
      .ok (plain ++ SectionId.custom.frame (Program.nameContents names)) := by
  have noNames : contents .custom = none := (Except.ok.inj (written.made .custom)).symm
  have written' := written.withNames (some names) (by rintro _ ⟨⟩; exact few)
  rw [moduleBytes_update_custom noNames, ← written.bytes] at written'
  refine link_eq_ok_iff.2 ⟨program, ⟨exports, none, some names⟩, _, decided, ?_, written'⟩
  refine Program.interface_eq_ok_iff.2 ⟨listed, ?_, ?_⟩
  · rw [unstarted]
    rfl
  · rw [if_pos rfl, named]
    rfl

/-- A link with names succeeds exactly if the names can be put together and their section is not too
large. -/
theorem link_withNames_eq_ok_iff (unstarted : options.emitStart = false) :
    link inputs { options with debugNames := true } = .ok output ↔
      ∃ names, program.functionNames = .ok names ∧
        (Program.nameContents names).length < wordLimit ∧
        output = plain ++ SectionId.custom.frame (Program.nameContents names) := by
  constructor
  · intro linked
    have wanted : ({ options with debugNames := true } : Options).debugNames = true := rfl
    obtain ⟨names, named, few⟩ := exists_names_of_link wanted decided linked
    have same := link_withNames decided listed written unstarted named few
    exact ⟨names, named, few, Except.ok.inj (linked.symm.trans same)⟩
  · rintro ⟨names, named, few, rfl⟩
    exact link_withNames decided listed written unstarted named few

omit written in
/-- Where names cannot be put together, a link with names ends for this reason. -/
theorem link_overflow_of_names (unstarted : options.emitStart = false)
    (failed : program.functionNames = .error .overflow) :
    link inputs { options with debugNames := true } = .error .overflow := by
  rw [link_eq]
  show (Program.ofInputs inputs options >>= _) = _
  rw [decided]
  show (program.interface { options with debugNames := true } >>= _) = _
  rw [Program.interface_eq, listed]
  simp only [unstarted, failed, if_true]
  rfl

/-- With a start function, the contents of its section are all that is new. -/
theorem link_withStart (unnamed : options.debugNames = false) {start : Option Nat}
    (found : program.start = .ok start) :
    link inputs { options with emitStart := true } =
      .ok (moduleBytes (Function.update contents .start (start.map Program.encodeNat))) := by
  refine link_eq_ok_iff.2 ⟨program, ⟨exports, start, none⟩, _, decided, ?_,
    written.withStart start⟩
  refine Program.interface_eq_ok_iff.2 ⟨listed, found, ?_⟩
  rw [unnamed]
  rfl

end

/-- The section for names and the one for a start function change nothing else. With either of them
a link fails if it fails without it. -/
theorem link_optionalSections (inputs : List (String × Bytes)) (options : Options)
    (unstarted : options.emitStart = false) (unnamed : options.debugNames = false) :
    (∀ plain, link inputs options = .ok plain → ∃ program contents start,
      OptionalSections inputs options plain program contents start) ∧
    ∀ cause, link inputs options = .error cause →
      (∃ cause', link inputs { options with debugNames := true } = .error cause') ∧
        ∃ cause', link inputs { options with emitStart := true } = .error cause' := by
  constructor
  · intro plain linked
    obtain ⟨program, ⟨exports, _, _⟩, contents, decided, shown, written⟩ := link_eq_ok_iff.1 linked
    obtain ⟨listed, start', names'⟩ := Program.interface_eq_ok_iff.1 shown
    -- Neither section is asked for.
    rw [unstarted] at start'
    rw [unnamed] at names'
    cases start'
    cases names'
    obtain ⟨start, found, some, index⟩ := Program.exists_start decided
    have exported := Program.ne_nil_of_exports listed
    refine ⟨program, contents, start, decided, ?bytes,
      ⟨exports, listed, exported, exports_of_written exported written⟩,
      Program.exists_functionNames_iff decided,
      fun _ => link_withNames_eq_ok_iff decided listed written unstarted, ?overflow, some, index,
      ?start⟩
    case bytes =>
      have noStart : contents .start = none := (Except.ok.inj (written.made .start)).symm
      have same : Function.update contents .start none = contents := by
        rw [← noStart, Function.update_eq_self]
      rw [written.bytes, ← same, moduleBytes_update_start]
      rfl
    case overflow =>
      intro unfit
      exact link_overflow_of_names decided listed unstarted
        (Program.functionNames_eq_overflow decided unfit)
    case start =>
      rw [link_withStart decided listed written unnamed found, moduleBytes_update_start,
        Option.elim_map]
  · intro cause failed
    have fails {emitStart debugNames : Bool} :
        ∃ cause', link inputs { options with emitStart, debugNames } = .error cause' := by
      rcases linked : link inputs { options with emitStart, debugNames } with cause' | output
      · exact ⟨cause', rfl⟩
      · obtain ⟨plain, done⟩ := exists_plain_of_link unstarted unnamed linked
        rw [failed] at done
        cases done
    exact ⟨fails, fails⟩

/-- The input `assorted` defines the entry point strongly, so that its link with a start function is
longer by a section, and there are names for its functions. -/
theorem link_assorted_optionalSections :
    ∃ plain program contents index names,
      OptionalSections assorted {} plain program contents (some index) ∧
      program.functionNames = .ok names ∧
      link assorted { emitStart := true } = .ok (Header.encode ++
        rowBytes contents SectionId.throughExports ++
          (SectionId.start.frame (Program.encodeNat index) ++
            rowBytes contents SectionId.behindStart)) := by
  have plain : (link assorted {}).isOk = true := by decide +kernel
  have started : (link assorted {}).toOption.map List.length ≠
      (link assorted { emitStart := true }).toOption.map List.length := by decide +kernel
  have fit : ((Program.ofInputs assorted {}).map fun program => decide program.NamesFit) =
      .ok true := by decide +kernel
  obtain ⟨plain, linked⟩ := exists_of_isOk plain
  obtain ⟨program, contents, start, sections⟩ :=
    (link_optionalSections assorted {} rfl rfl).1 plain linked
  rw [sections.decided] at fit
  obtain ⟨names, named⟩ := sections.names_iff.2 (of_decide_eq_true (Except.ok.inj fit))
  have withStart := sections.withStart
  cases start with
  | none =>
    rw [linked, withStart, sections.bytes] at started
    exact absurd rfl started
  | some index => exact ⟨plain, program, contents, index, names, sections, named, withStart⟩

/-- Two inputs with one function each. The second gives a name to function `0xFFFFFFFF`. -/
def strayNaming : List (String × Bytes) :=
  [("one.o",
      [0, 97, 115, 109, 1, 0, 0, 0, 1, 4, 1, 96, 0, 0, 3, 2, 1, 0, 10, 4, 1, 2, 0, 11, 0, 19, 7, 108,
        105, 110, 107, 105, 110, 103, 2, 8, 8, 1, 0, 0, 0, 3, 111, 110, 101]),
    ("two.o",
      [0, 97, 115, 109, 1, 0, 0, 0, 1, 4, 1, 96, 0, 0, 3, 2, 1, 0, 10, 4, 1, 2, 0, 11, 0, 19, 7, 108,
        105, 110, 107, 105, 110, 103, 2, 8, 8, 1, 0, 0, 0, 3, 116, 119, 111, 0, 17, 4, 110, 97, 109,
        101, 1, 10, 1, 255, 255, 255, 255, 15, 3, 116, 119, 111])]

/-- Without names the two inputs are linked, and with names a sum is too large. -/
theorem link_strayName :
    (∃ plain, link strayNaming {} = .ok plain) ∧
      link strayNaming { debugNames := true } = .error .overflow := by
  refine ⟨exists_of_isOk (by decide +kernel), ?_⟩
  decide +kernel

end StaticLink
