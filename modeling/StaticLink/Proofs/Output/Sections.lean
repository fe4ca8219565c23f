import StaticLink.Proofs.Output.Frame

/-!
# What is in a linked module

A module that was written holds the entries of each of its sections.

* `Program.Contents`: the globals, the table, the code and the data of a program are in some bytes.
* `Program.ofInputs`: the program of some inputs; `Program.Decided`: what it decides.
* `exists_written_of_link`: when a link succeeds, its result is the linked module of a program.
* `exists_program_of_link`: that program has its contents in the linked module.
-/

namespace StaticLink

/-- If there are any entries, then they could be produced, and they are among these bytes. -/
def Writer.Holds (bytes : Bytes) (count : UInt32) (entries : Except Error Bytes) : Prop :=
  count ≠ 0 → ∃ contents, entries = .ok contents ∧ contents <:+: bytes

theorem SectionId.frame_infix_moduleBytes {contents : SectionId → Option Bytes} {id : SectionId}
    {bytes : Bytes} (listed : id ∈ outputOrder) (here : contents id = some bytes) :
    id.frame bytes <:+: moduleBytes contents := by
  have member : id.frame bytes ∈ outputOrder.map fun id => (contents id).elim [] id.frame :=
    List.mem_map.2 ⟨id, listed, by rw [here]; rfl⟩
  have within := List.infix_of_mem_flatten member
  rw [← List.flatMap_def] at within
  exact within.trans (List.suffix_append _ _).isInfix

namespace Program

open Writer (Holds)

variable {program : Program} {interface : Interface} {output : Bytes}
  {sections : SectionId → Option Bytes}

/-- The entries of a section are in the linked module. -/
theorem Written.holds {id : SectionId} {count : UInt32} {entries : Except Error Bytes}
    (written : program.Written interface sections output) (listed : id ∈ SectionId.outputOrder)
    (vector : program.sectionContents interface id = vectorContents count entries) :
    Holds output count entries := by
  intro any
  rcases vectorContents_eq_ok (vector.symm.trans (written.made id)) with
    ⟨none, -⟩ | ⟨-, bytes, produced, same⟩
  · exact absurd none any
  · refine ⟨bytes, produced, ?_⟩
    have framed : bytes <:+: id.frame (Leb128.ofUInt32 count ++ bytes) := by
      rw [SectionId.frame, ← List.append_assoc]
      exact (List.suffix_append _ _).isInfix
    rw [written.bytes]
    exact framed.trans (SectionId.frame_infix_moduleBytes listed same)

/-- The contents that are copied or computed stand in the linked module. -/
structure Contents (program : Program) (output : Bytes) : Prop where
  globals : Holds output (.ofNat program.globalCount) program.globalEntries
  elements : Holds output (.ofNat program.elementSegmentCount) program.elementEntries
  code : Holds output (.ofNat program.codeCount) program.codeEntries
  data : Holds output (.ofNat program.layout.segments.length) program.dataEntries

theorem Written.contents (written : program.Written interface sections output) :
    program.Contents output where
  globals := written.holds (by decide : SectionId.globals ∈ SectionId.outputOrder) rfl
  elements := written.holds (by decide : SectionId.elements ∈ SectionId.outputOrder) rfl
  code := written.holds (by decide : SectionId.code ∈ SectionId.outputOrder) rfl
  data := written.holds (by decide : SectionId.data ∈ SectionId.outputOrder) rfl

/-- The program of some inputs, of which none may be refused. -/
def ofInputs (inputs : List (String × Bytes)) (options : Options) : Except Error Program :=
  match Session.addAll inputs .empty with
  | .ok _ session => ofSession session options.globalBase.toNat
  | .error error _ => .error error

/-- What a program decides, for the inputs of a session. -/
structure Decided (session : Session) (base : Nat) (program : Program) : Prop where
  modules : session.modules = program.modules
  layout : DataLayout.ofModules program.modules base = .ok program.layout
  stackTop : StaticLink.stackTop program.layout.stop = .ok program.stackTop
  symbols : session.symbols.complete program.modules program.layout program.stackTop =
    .ok program.symbols
  imports : Imports.ofSymbols program.modules program.symbols = .ok program.imports
  typesCounted : program.typeCount < wordLimit
  types : ∃ types, program.functionTypes = .ok types

theorem decided_of_ofSession {session : Session} {base : Nat}
    (h : ofSession session base = .ok program) : program.Decided session base := by
  obtain ⟨layout, placed, h⟩ := bind_eq_ok.1 h
  obtain ⟨stackTop, reserved, h⟩ := bind_eq_ok.1 h
  obtain ⟨symbols, completed, h⟩ := bind_eq_ok.1 h
  obtain ⟨_, counted, h⟩ := bind_eq_ok.1 h
  obtain ⟨imports, imported, h⟩ := bind_eq_ok.1 h
  obtain ⟨types, typed, rfl⟩ := return_eq_ok.1 h
  exact ⟨rfl, placed, reserved, completed, imported, (inWord_eq_ok.1 counted).1, types, typed⟩

theorem decided_of_ofInputs {inputs : List (String × Bytes)} {options : Options}
    (h : ofInputs inputs options = .ok program) :
    ∃ session, Session.addAll inputs .empty = .ok () session ∧
      program.Decided session options.globalBase.toNat := by
  unfold ofInputs at h
  split at h
  · next session added => exact ⟨session, added, decided_of_ofSession h⟩
  · cases h

end Program

/-- Linking writes the program of the inputs. -/
theorem link_eq (inputs : List (String × Bytes)) (options : Options) :
    link inputs options = (do
      let program ← Program.ofInputs inputs options
      program.encode (← program.interface options)) := by
  unfold link Program.ofInputs
  cases Session.addAll inputs .empty <;> rfl

variable {inputs : List (String × Bytes)} {options : Options} {output : Bytes}

theorem exists_written_of_link (h : link inputs options = .ok output) :
    ∃ program interface, Program.ofInputs inputs options = .ok program ∧
      program.interface options = .ok interface ∧
      program.Written interface (program.section? interface) output := by
  rw [link_eq] at h
  obtain ⟨program, decided, h⟩ := bind_eq_ok.1 h
  obtain ⟨interface, shown, encoded⟩ := bind_eq_ok.1 h
  exact ⟨program, interface, decided, shown, Program.written_of_encode encoded⟩

theorem exists_program_of_link (h : link inputs options = .ok output) :
    ∃ program, Program.ofInputs inputs options = .ok program ∧ program.Contents output := by
  obtain ⟨program, interface, decided, -, written⟩ := exists_written_of_link h
  exact ⟨program, decided, written.contents⟩

end StaticLink
