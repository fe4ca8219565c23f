import StaticLink.Link
import StaticLink.Proofs.Steps

/-!
# The frame of a linked module

A linked module is its header and then its sections in a fixed order. A section stands behind its
id and the size of its contents, and one without entries is left out.

* `SectionId.frame`: the bytes of a section with given contents.
* `Program.sectionContents`: what the contents of each section are, if there is such a section.
* `Program.Written`: some bytes are the linked module of a program.
-/

namespace StaticLink

namespace SectionId

/-- The section with these contents, as it stands in a module. -/
def frame (id : SectionId) (contents : Bytes) : Bytes :=
  id.toByte :: Leb128.paddedUInt32 (UInt32.ofNat contents.length) ++ contents

/-- The sections of a linked module in their order. -/
def outputOrder : List SectionId :=
  [.types, .imports, .functions, .tables, .memories, .globals, .exports, .start, .elements, .code,
    .data, .custom]

end SectionId

/-- The module with these sections. -/
def moduleBytes (contents : SectionId → Option Bytes) : Bytes :=
  Header.encode ++ SectionId.outputOrder.flatMap fun id => (contents id).elim [] id.frame

/-- The contents of a section of `count` entries. Without entries there is no section. -/
def vectorContents (count : UInt32) (entries : Except Error Bytes) :
    Except Error (Option Bytes) :=
  if count = 0 then .ok none else do return some (Leb128.ofUInt32 count ++ (← entries))

theorem vectorContents_eq_ok {count : UInt32} {entries : Except Error Bytes}
    {contents : Option Bytes} (h : vectorContents count entries = .ok contents) :
    count = 0 ∧ contents = none ∨
      count ≠ 0 ∧ ∃ bytes, entries = .ok bytes ∧
        contents = some (Leb128.ofUInt32 count ++ bytes) := by
  unfold vectorContents at h
  split at h
  · next none =>
    cases h
    exact .inl ⟨none, rfl⟩
  · next any =>
    obtain ⟨bytes, produced, same⟩ := return_eq_ok.1 h
    exact .inr ⟨any, bytes, produced, same.symm⟩

/-! ## Writing sections -/

namespace Writer

variable {writer next : Writer} {id : SectionId} {contents : Bytes}

/-- A size field can be filled exactly if the contents behind it are not too large. -/
theorem closeSize_append_eq_ok_iff (contents : Bytes) {field : SizeField} {opened : Writer}
    (reserved : writer.openSize = (field, opened)) :
    (opened.append contents).closeSize field = .ok next ↔
      contents.length < wordLimit ∧ next = writer.append
        (Leb128.paddedUInt32 (UInt32.ofNat contents.length) ++ contents) := by
  by_cases small : contents.length < wordLimit
  · rw [closeSize_append writer contents field opened reserved small, Except.ok.injEq, eq_comm]
    exact (and_iff_right small).symm
  · obtain ⟨rfl, rfl⟩ := Prod.mk.inj reserved
    have size : ((writer.append (Leb128.paddedUInt32 0)).append contents).size -
        (writer.size + Leb128.paddedWidth32) = contents.length := by
      rw [size_append, size_append, Leb128.length_paddedUInt32]
      omega
    simp only [closeSize, size, if_neg small]
    simp [small]

/-- A section can be written exactly if its contents are not too large for their size field. -/
theorem addSection_eq_ok_iff :
    writer.addSection id contents = .ok next ↔
      contents.length < wordLimit ∧ next = writer.append (id.frame contents) := by
  have opened : (writer.append [id.toByte]).openSize = writer.openSection id := rfl
  refine (closeSize_append_eq_ok_iff contents opened).trans (and_congr_right fun _ => ?_)
  simp [append, SectionId.frame]

/-- Between the two writers there is a section with these contents, if there are any. -/
def Puts (writer next : Writer) (id : SectionId) (contents : Except Error (Option Bytes)) : Prop :=
  ∃ made, contents = .ok made ∧ (∀ bytes, made = some bytes → bytes.length < wordLimit) ∧
    next.bytes = writer.bytes ++ made.elim [] id.frame

theorem puts_of_addSection (h : writer.addSection id contents = .ok next) :
    Puts writer next id (.ok (some contents)) := by
  obtain ⟨small, rfl⟩ := addSection_eq_ok_iff.1 h
  refine ⟨some contents, rfl, ?_, rfl⟩
  rintro bytes ⟨⟩
  exact small

theorem puts_none (writer : Writer) (id : SectionId) : Puts writer writer id (.ok none) :=
  ⟨none, rfl, by simp, by simp⟩

theorem puts_of_addVector {count : UInt32} {entries : Except Error Bytes}
    (h : writer.addVector id count entries = .ok next) :
    Puts writer next id (vectorContents count entries) := by
  unfold addVector at h
  unfold vectorContents
  split at h
  · next none =>
    cases h
    rw [if_pos none]
    exact puts_none writer id
  · next any =>
    obtain ⟨bytes, rfl, h⟩ := bind_eq_ok.1 h
    rw [if_neg any]
    exact puts_of_addSection h

end Writer

/-! ## The sections of a program -/

namespace Program

open Writer (Puts puts_of_addVector puts_of_addSection puts_none)

variable {program : Program} {interface : Interface} {writer next : Writer} {output : Bytes}
  {contents : SectionId → Option Bytes}

/-- The entries of a subsection for the names of functions. -/
def functionNameEntries (names : List (UInt32 × String)) : Bytes :=
  names.flatMap fun (index, name) => Leb128.ofUInt32 index ++ Text.encode name

/-- The subsection for the names of functions, without what opens it. -/
def functionNameContents (names : List (UInt32 × String)) : Bytes :=
  encodeNat names.length ++ functionNameEntries names

/-- The contents of the section for names. -/
def nameContents (names : List (UInt32 × String)) : Bytes :=
  Text.encode CustomSection.namesName ++ CustomSection.functionNames ::
    Leb128.paddedUInt32 (UInt32.ofNat (functionNameContents names).length) ++
    functionNameContents names

/-- The contents of each section of the linked module, if it has this section. -/
def sectionContents (program : Program) (interface : Interface) :
    SectionId → Except Error (Option Bytes)
  | .types => vectorContents (.ofNat program.typeCount) program.typeEntries
  | .imports => vectorContents (.ofNat program.importCount) (.ok program.importEntries)
  | .functions => vectorContents (.ofNat program.functionCount) program.functionEntries
  | .tables => vectorContents 1 (.ok program.tableLimits.encodeTable)
  | .memories => vectorContents 1 (.ok program.memoryLimits.encode)
  | .globals => vectorContents (.ofNat program.globalCount) program.globalEntries
  | .exports =>
    vectorContents (.ofNat interface.exports.length) (.ok (exportEntries interface.exports))
  | .start => .ok (interface.start.map encodeNat)
  | .elements => vectorContents (.ofNat program.elementSegmentCount) program.elementEntries
  | .code => vectorContents (.ofNat program.codeCount) program.codeEntries
  | .data => vectorContents (.ofNat program.layout.segments.length) program.dataEntries
  | .custom => .ok (interface.functionNames.map nameContents)
  | .dataCount => .ok none

/-- The names of functions are written as a section, whose size includes that of the one subsection
in it. -/
theorem puts_of_writeFunctionNames {names : List (UInt32 × String)}
    (h : writeFunctionNames writer names = .ok next) :
    Puts writer next .custom (.ok (some (nameContents names))) := by
  obtain ⟨closed, inner, outer⟩ := bind_eq_ok.1 h
  obtain ⟨-, rfl⟩ := (Writer.closeSize_append_eq_ok_iff _ rfl).1 inner
  refine puts_of_addSection (Eq.trans ?_ outer)
  refine congrArg (Writer.closeSize · ⟨(writer.append [SectionId.custom.toByte]).size⟩) ?_
  simp [Writer.append, nameContents, functionNameContents, functionNameEntries]

/-- Writes the section for the start function, if there is one. -/
def writeStart (start : Option Nat) (writer : Writer) : Except Error Writer :=
  start.elim (.ok writer) fun function => writer.addSection .start (encodeNat function)

/-- Writes the section for names, if they are wanted. -/
def writeNames (names : Option (List (UInt32 × String))) (writer : Writer) :
    Except Error Writer :=
  names.elim (.ok writer) (writeFunctionNames writer)

theorem encode_eq (program : Program) (interface : Interface) :
    program.encode interface = (do
      let _ ← inWord program.codeCount
      let declared ← program.writeDeclarations interface (Writer.empty.append Header.encode)
      let started ← writeStart interface.start declared
      let filled ← program.writeContents started
      let named ← writeNames interface.functionNames filled
      return named.bytes) := by
  unfold encode
  rcases interface with ⟨_, _ | _, _ | _⟩ <;> rfl

theorem puts_of_writeStart (h : writeStart interface.start writer = .ok next) :
    Puts writer next .start (program.sectionContents interface .start) := by
  unfold writeStart at h
  rcases start : interface.start with _ | function
  · rw [start] at h
    cases h
    rw [sectionContents, start]
    exact puts_none writer .start
  · rw [start] at h
    rw [sectionContents, start]
    exact puts_of_addSection h

theorem puts_of_writeNames (h : writeNames interface.functionNames writer = .ok next) :
    Puts writer next .custom (program.sectionContents interface .custom) := by
  unfold writeNames at h
  rcases names : interface.functionNames with _ | names'
  · rw [names] at h
    cases h
    rw [sectionContents, names]
    exact puts_none writer .custom
  · rw [names] at h
    rw [sectionContents, names]
    exact puts_of_writeFunctionNames h

/-- The sections `ids` of the linked module are written one after the other. -/
inductive Writes (program : Program) (interface : Interface) :
    (writer next : Writer) → (ids : List SectionId) → Prop
  | none (writer : Writer) : Writes program interface writer writer []
  | more {writer middle last : Writer} {id : SectionId} {ids : List SectionId}
      (first : Puts writer middle id (program.sectionContents interface id))
      (rest : Writes program interface middle last ids) :
    Writes program interface writer last (id :: ids)

theorem Writes.append {middle : Writer} {earlier later : List SectionId}
    (before : program.Writes interface writer middle earlier)
    (after : program.Writes interface middle next later) :
    program.Writes interface writer next (earlier ++ later) := by
  induction before with
  | none => exact after
  | more first _ ih => exact .more first (ih after)

theorem writes_of_writeDeclarations (h : program.writeDeclarations interface writer = .ok next) :
    program.Writes interface writer next
      [.types, .imports, .functions, .tables, .memories, .globals, .exports] := by
  obtain ⟨_, types, h⟩ := bind_eq_ok.1 h
  obtain ⟨_, imports, h⟩ := bind_eq_ok.1 h
  obtain ⟨_, functions, h⟩ := bind_eq_ok.1 h
  obtain ⟨_, tables, h⟩ := bind_eq_ok.1 h
  obtain ⟨_, memories, h⟩ := bind_eq_ok.1 h
  obtain ⟨_, globals, exports⟩ := bind_eq_ok.1 h
  refine .more (puts_of_addVector types) (.more (puts_of_addVector imports) ?_)
  refine .more (puts_of_addVector functions) (.more (puts_of_addVector tables) ?_)
  refine .more (puts_of_addVector memories) (.more (puts_of_addVector globals) ?_)
  exact .more (puts_of_addVector exports) (.none next)

theorem writes_of_writeContents (h : program.writeContents writer = .ok next) :
    program.Writes interface writer next [.elements, .code, .data] := by
  obtain ⟨_, elements, h⟩ := bind_eq_ok.1 h
  obtain ⟨_, code, data⟩ := bind_eq_ok.1 h
  refine .more (puts_of_addVector elements) (.more (puts_of_addVector code) ?_)
  exact .more (puts_of_addVector data) (.none next)

/-- What is encoded is the header and then the sections in their order, if the number of bodies is a
word. -/
theorem writes_of_encode (h : program.encode interface = .ok output) :
    program.codeCount < wordLimit ∧ ∃ last, last.bytes = output ∧
      program.Writes interface ⟨Header.encode⟩ last SectionId.outputOrder := by
  rw [encode_eq] at h
  obtain ⟨_, counted, h⟩ := bind_eq_ok.1 h
  obtain ⟨declared, declarations, h⟩ := bind_eq_ok.1 h
  obtain ⟨started, start, h⟩ := bind_eq_ok.1 h
  obtain ⟨filled, contents, h⟩ := bind_eq_ok.1 h
  obtain ⟨named, names, rfl⟩ := return_eq_ok.1 h
  refine ⟨(inWord_eq_ok.1 counted).1, named, rfl, ?_⟩
  refine (writes_of_writeDeclarations declarations).append ?_
  refine .more (puts_of_writeStart start) ((writes_of_writeContents contents).append ?_)
  exact .more (puts_of_writeNames names) (.none named)

/-! ## The linked module -/

/-- The section that a program has, if any. -/
def section? (program : Program) (interface : Interface) (id : SectionId) : Option Bytes :=
  (program.sectionContents interface id).toOption.join

/-- Some bytes are the linked module of a program, and these are its sections. -/
structure Written (program : Program) (interface : Interface)
    (contents : SectionId → Option Bytes) (output : Bytes) : Prop where
  made : ∀ id, program.sectionContents interface id = .ok (contents id)
  /-- The size of a section fits in its size field. -/
  small : ∀ id bytes, contents id = some bytes → bytes.length < wordLimit
  counted : program.codeCount < wordLimit
  bytes : output = moduleBytes contents

theorem Writes.bytes {ids : List SectionId} (writes : program.Writes interface writer next ids) :
    next.bytes = writer.bytes ++
      ids.flatMap fun id => (program.section? interface id).elim [] id.frame := by
  induction writes with
  | none => simp
  | more first _ ih =>
    obtain ⟨made, produced, -, bytes⟩ := first
    rw [ih, bytes, List.flatMap_cons, section?, produced, List.append_assoc]
    rfl

theorem Writes.made {ids : List SectionId} {id : SectionId}
    (writes : program.Writes interface writer next ids) (member : id ∈ ids) :
    program.sectionContents interface id = .ok (program.section? interface id) ∧
      ∀ bytes, program.section? interface id = some bytes → bytes.length < wordLimit := by
  induction writes with
  | none => cases member
  | more first _ ih =>
    rcases List.mem_cons.1 member with rfl | later
    · obtain ⟨made, produced, small, -⟩ := first
      rw [section?, produced]
      exact ⟨rfl, small⟩
    · exact ih later

/-- What is encoded is the linked module of the program. -/
theorem written_of_encode (h : program.encode interface = .ok output) :
    program.Written interface (program.section? interface) output := by
  obtain ⟨counted, last, rfl, writes⟩ := writes_of_encode h
  have each (id : SectionId) :
      program.sectionContents interface id = .ok (program.section? interface id) ∧
        ∀ bytes, program.section? interface id = some bytes → bytes.length < wordLimit := by
    by_cases counted : id = .dataCount
    · subst counted
      exact ⟨rfl, by rintro _ ⟨⟩⟩
    · exact writes.made (by revert counted; cases id <;> decide)
  exact ⟨fun id => (each id).1, fun id => (each id).2, counted, writes.bytes⟩

end Program

end StaticLink
