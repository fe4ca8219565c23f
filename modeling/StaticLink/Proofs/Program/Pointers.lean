import Mathlib.Control.Monad.Basic
import StaticLink.Proofs.Output.Sections
import StaticLink.Proofs.Program.Table
import StaticLink.Proofs.Relocation.Demand

/-!
# Functions behind pointers

A call through a pointer reaches the function that the table of the linked module holds at its slot.
A direct call reaches the function that the symbol stands for. The two are found in different ways:
a table entry by its position among the functions of its input, and a symbol by the record that all
inputs share.

* `Program.Points`, `Program.Calls`: an input has a pointer to a function, or calls it.
* `Program.Agrees`: the symbol still stands for what the input put into its table.
* `link_table_entry`: the entry behind a pointer, and when it is the function of the symbol.
-/

namespace StaticLink

namespace Program

/-! ## Pointers and calls -/

/-- Input `owner`, the file `bytes`, has a pointer to its function `index`: a table-index
relocation against the entry of this function, which leads to symbol `id`. The operand is
`current`, a slot that the input fills with the function. -/
structure Points (program : Program) (owner : ModuleId) (bytes : Bytes) (relocation : Relocation)
    (current : Int) (index : UInt32) (id : SymbolId) : Prop where
  kind : relocation.kind.isTableIndex = true
  entry : ∃ flags name, (symbolEntries bytes)[relocation.index.toNat]? =
    some (.function flags index name)
  leads : program.LeadsTo owner relocation.index (.symbol id)
  fills : ∃ module, program.input owner = .ok module ∧
    module.Fills (current % wordLimit).toNat index

/-- Input `owner` calls the function of symbol `id` directly. -/
structure Calls (program : Program) (owner : ModuleId) (relocation : Relocation) (id : SymbolId) :
    Prop where
  kind : relocation.kind = .functionIndexLeb
  leads : program.LeadsTo owner relocation.index (.symbol id)

/-- What symbol `id` stands for is still function `index` of input `owner`, whose symbol table has
these entries. -/
inductive Agrees (program : Program) (owner : ModuleId) (entries : List SymbolEntry)
    (index : UInt32) (id : SymbolId) : Prop
  /-- The input defines the function, and no other definition took its place. -/
  | own {module : ObjectModule} {symbol : Symbol} {place : UInt32}
      (input : program.input owner = .ok module) (stands : program.symbols.get id = .ok symbol)
      (target : symbol.target = .function (.defined owner place))
      (same : index.toNat = module.functionImports.size + place.toNat)
  /-- The input imports the function, and the last of its entries for the import leads to a symbol
  with the same function. -/
  | imported {module : ObjectModule} {i : Nat} {last : SymbolId}
      (input : program.input owner = .ok module)
      (small : index.toNat < module.functionImports.size)
      (entry : SymbolEntry.LastFor entries index i)
      (leads : module.slots[i]? = some (.symbol last))
      (same : program.functionIndex last = program.functionIndex id)

variable {inputs : List (String × Bytes)} {program : Program} {owner : ModuleId}
  {module : ObjectModule} {slot stored : Nat} {index : UInt32} {id : SymbolId} {name : String}
  {bytes : Bytes} {relocation : Relocation} {current : Int}

/-- What a pointer points to is a function of the input, and its symbol is a function. -/
theorem Points.bounds (points : program.Points owner bytes relocation current index id)
    (sound : program.Sound inputs) (file : inputs[owner]? = some (name, bytes))
    (input : program.input owner = .ok module) :
    index.toNat < module.functionImports.size + module.functions.size ∧
      program.symbols.Registered id .function := by
  obtain ⟨flags, entryName, entry⟩ := points.entry
  have reads := sound.reads owner name bytes module file (existing_eq_ok.1 input)
  have within : index.toNat < module.functionImports.size + module.functions.size :=
    reads.within _ (List.mem_of_getElem? entry)
  obtain ⟨slot, there, entered⟩ := reads.entered relocation.index.toNat _ entry
  obtain ⟨other, rfl, registered⟩ : ∃ other, slot = .symbol other ∧
      program.symbols.Registered other .function := entered
  -- The entry leads to one symbol only.
  obtain ⟨again, same, leads⟩ := points.leads
  cases input.symm.trans same
  cases there.symm.trans leads
  exact ⟨within, registered⟩

theorem operandValue_of_leads (leads : program.LeadsTo owner relocation.index (.symbol id))
    (kind : relocation.kind ≠ .typeIndexLeb) :
    program.operandValue owner relocation current =
      program.symbolValue owner relocation id current := by
  obtain ⟨module, input, slot⟩ := leads
  have entry : module.slot relocation.index = .ok (.symbol id) :=
    ObjectModule.slot_eq_ok_iff.2 slot
  unfold operandValue
  rw [if_neg kind, input]
  show (module.slot relocation.index >>= _) = _
  rw [entry]
  rfl

/-- A pointer becomes the slot of the linked table that has the entry it points to. -/
theorem Points.operandValue (points : program.Points owner bytes relocation current index id)
    (function : program.symbols.Registered id .function)
    (here : program.tableSlot owner (current % wordLimit).toNat = .ok (some slot)) :
    program.operandValue owner relocation current = .ok (slot : Int) := by
  have table := points.kind
  have notType : relocation.kind ≠ .typeIndexLeb := by
    intro same
    rw [same] at table
    cases table
  have notMemory : relocation.kind.isMemoryAddress = false := by
    rcases memory : relocation.kind.isMemoryAddress with _ | _
    · rfl
    · exact absurd table (by revert memory; cases relocation.kind <;> decide)
  obtain ⟨symbol, found, isFunction⟩ := function
  have stands : program.symbols.get id = .ok symbol := existing_eq_ok.2 found
  rw [operandValue_of_leads points.leads notType]
  unfold symbolValue
  rw [stands]
  show (if relocation.kind.isMemoryAddress = true then _ else _) = _
  rw [if_neg (by rw [notMemory]; decide), if_pos table]
  dsimp only
  rw [if_pos isFunction, here]
  rfl

/-- A direct call reaches the function of the symbol. -/
theorem Calls.operandValue (calls : program.Calls owner relocation id)
    (function : program.symbols.Registered id .function) :
    program.operandValue owner relocation current = (program.functionIndex id).map Int.ofNat := by
  obtain ⟨symbol, found, isFunction⟩ := function
  have stands : program.symbols.get id = .ok symbol := existing_eq_ok.2 found
  rw [operandValue_of_leads calls.leads (by rw [calls.kind]; decide)]
  unfold symbolValue
  rw [stands]
  show (if relocation.kind.isMemoryAddress = true then _ else _) = _
  rw [calls.kind]
  show ((if symbol.target.kind = .function then _ else _) >>= _) = _
  rw [if_pos isFunction]
  rcases program.functionIndex id with error | index
  · rfl
  · rfl

/-- The function behind a pointer is the one of the symbol exactly if the two agree. -/
theorem functionIndex_eq_inputFunctionIndex_iff
    (points : program.Points owner bytes relocation current index id)
    (sound : program.Sound inputs) (file : inputs[owner]? = some (name, bytes))
    (h : program.inputFunctionIndex owner index = .ok stored) :
    program.functionIndex id = .ok stored ↔
      program.Agrees owner (symbolEntries bytes) index id := by
  obtain ⟨module, input, -⟩ := points.fills
  obtain ⟨within, -⟩ := points.bounds sound file input
  have here := existing_eq_ok.1 input
  -- Each branch of the search in the input's own index space has its own way to agree.
  rcases inputFunctionIndex_eq_ok input h with ⟨own, -, rfl⟩ | ⟨small, last, named, same⟩
  · -- A function of the input has an index of its own.
    have position : index.toNat - module.functionImports.size < module.functions.size := by omega
    rw [functionIndex_eq_iff sound here position]
    constructor
    · rintro ⟨symbol, place, stands, target, equal⟩
      exact .own input stands target (by omega)
    · intro agrees
      cases agrees with
      | @own again symbol place input' stands target equal =>
        cases input.symm.trans input'
        exact ⟨symbol, place, stands, target, by omega⟩
      | @imported again _ _ input' small =>
        cases input.symm.trans input'
        omega
  · -- A function that is imported is what the last entry for the import says.
    obtain ⟨i, entry, leads⟩ := sound.imports owner name bytes module file here index last named
    rw [← same]
    constructor
    · intro equal
      exact .imported input small entry leads equal.symm
    · intro agrees
      cases agrees with
      | @own again _ place input' _ _ equal =>
        cases input.symm.trans input'
        omega
      | @imported again j other input' _ entry' leads' equal =>
        cases input.symm.trans input'
        cases entry.unique entry'
        cases leads.symm.trans leads'
        exact equal.symm

end Program

open Program (firstSlot segmentHeader encodeNat)

/-- In a linked module, a pointer to a function of an input is the slot of an entry of the table.
The entry is the function that direct calls through the symbol reach exactly if this symbol still
stands for the function of the input. -/
theorem link_table_entry {inputs : List (String × Bytes)} {options : Options} {output : Bytes}
    (linked : link inputs options = .ok output) :
    ∃ program, Program.ofInputs inputs options = .ok program ∧
      ∀ owner name bytes relocation current index id, inputs[owner]? = some (name, bytes) →
        program.Points owner bytes relocation current index id →
        ∃ functions slot stored, program.tableFunctions = .ok functions ∧
          segmentHeader firstSlot ++ encodeNat functions.length ++ functions.flatMap encodeNat <:+:
            output ∧
          program.operandValue owner relocation current = .ok ((firstSlot + slot : Nat) : Int) ∧
          functions[slot]? = some stored ∧
          (∀ caller call operand, program.Calls caller call id →
            program.operandValue caller call operand =
              (program.functionIndex id).map Int.ofNat) ∧
          (program.functionIndex id = .ok stored ↔
            program.Agrees owner (symbolEntries bytes) index id) := by
  obtain ⟨program, decided, contents⟩ := exists_program_of_link linked
  refine ⟨program, decided, ?_⟩
  intro owner name bytes relocation current index id file points
  have sound := Program.sound_of_ofInputs decided
  obtain ⟨module, input, any, all⟩ := points.fills
  obtain ⟨-, function⟩ := points.bounds sound file input
  obtain ⟨position, found, entry⟩ := Program.entryPosition?_of_fills any all
  have here := existing_eq_ok.1 input
  have small : position < module.elementCount := (List.getElem?_eq_some_iff.1 entry).1
  have filled := Program.elementSegmentCount_ne_zero here small
  obtain ⟨entries, produced, within⟩ := contents.elements filled
  obtain ⟨functions, decoded, rfl⟩ := return_eq_ok.1 produced
  obtain ⟨stored, means, there⟩ := Program.tableFunctions_getElem? decoded here entry
  refine ⟨functions, program.elementBase owner + position, stored, decoded, ?_,
    points.operandValue function (Program.tableSlot_eq_ok input found), there, ?_, ?_⟩
  · rw [Program.length_tableFunctions decoded]
    exact within
  · intro caller call operand calls
    exact calls.operandValue function
  · exact Program.functionIndex_eq_inputFunctionIndex_iff points sound file means

/-- An input that defines a weak function and has a pointer to it, slot one of its table. -/
def weakPointer : Bytes :=
  [0, 97, 115, 109, 1, 0, 0, 0, 1, 4, 1, 96, 0, 0, 3, 2, 1, 0, 9, 7, 1, 0, 65, 1, 11, 1, 0, 10, 4,
   1, 2, 0, 11, 11, 10, 1, 0, 65, 0, 11, 4, 1, 0, 0, 0, 0, 17, 7, 108, 105, 110, 107, 105, 110,
   103, 2, 8, 6, 1, 0, 1, 0, 1, 102, 0, 16, 10, 114, 101, 108, 111, 99, 46, 68, 65, 84, 65, 4, 1,
   2, 6, 0]

/-- An input that defines the same function, and not weakly. -/
def strongFunction : Bytes :=
  [0, 97, 115, 109, 1, 0, 0, 0, 1, 4, 1, 96, 0, 0, 3, 2, 1, 0, 10, 4, 1, 2, 0, 11, 0, 17, 7, 108,
   105, 110, 107, 105, 110, 103, 2, 8, 6, 1, 0, 0, 0, 1, 102]

/-- The two together. -/
def overridden : List (String × Bytes) :=
  [("weak.o", weakPointer), ("strong.o", strongFunction)]

/-- The first input of a program: where its symbol table leads, how it fills its table, how many
functions it imports, and what stands for its first symbol. -/
def firstInput (program : Program) :
    Except Error (Array Slot × Array ElementSegment × Nat × Target) := do
  let module ← program.input 0
  return (module.slots, module.elementSegments, module.functionImports.size,
    (← program.symbols.get 0).target)

/-- The word with the pointer. -/
def pointerWord : Relocation := ⟨.tableIndexI32, 6, 0, 0⟩

theorem points_of_firstInput {program : Program} {imports : Nat} {target : Target}
    (first : firstInput program =
      .ok (#[.symbol 0], #[⟨0, 1, [0]⟩], imports, target)) :
    program.Points 0 weakPointer pointerWord 1 0 0 := by
  obtain ⟨module, input, first⟩ := bind_eq_ok.1 first
  obtain ⟨symbol, stands, first⟩ := bind_eq_ok.1 first
  obtain ⟨slots, rest⟩ := Prod.mk.inj (Except.ok.inj first)
  obtain ⟨segments, -⟩ := Prod.mk.inj rest
  refine ⟨rfl, ?_, ⟨module, input, ?_⟩, module, input, ?_⟩
  · have entries : symbolEntries weakPointer = [.function ⟨1⟩ 0 (some "f")] := by decide +kernel
    rw [entries]
    exact ⟨⟨1⟩, some "f", rfl⟩
  · rw [slots]
    rfl
  · rw [ObjectModule.Fills, segments]
    decide

/-- As long as nothing overrides the weak function, its pointer and its symbol agree. -/
theorem link_pointer :
    ∃ program functions slot stored, Program.ofInputs [("weak.o", weakPointer)] {} = .ok program ∧
      program.operandValue 0 pointerWord 1 = .ok ((firstSlot + slot : Nat) : Int) ∧
      program.tableFunctions = .ok functions ∧ functions[slot]? = some stored ∧
      program.functionIndex 0 = .ok stored := by
  have accepted : (link [("weak.o", weakPointer)] {}).isOk = true := by decide +kernel
  have facts : (Program.ofInputs [("weak.o", weakPointer)] {} >>= firstInput) =
      .ok (#[.symbol 0], #[⟨0, 1, [0]⟩], 0, .function (.defined 0 0)) := by decide +kernel
  rcases linked : link [("weak.o", weakPointer)] {} with error | output
  · rw [linked] at accepted
    cases accepted
  · obtain ⟨program, decided, table⟩ := link_table_entry linked
    rw [decided] at facts
    have first : firstInput program =
      .ok (#[.symbol 0], #[⟨0, 1, [0]⟩], 0, .function (.defined 0 0)) := facts
    obtain ⟨functions, slot, stored, listed, -, operand, here, -, same⟩ :=
      table 0 "weak.o" weakPointer pointerWord 1 0 0 rfl (points_of_firstInput first)
    obtain ⟨module, input, first⟩ := bind_eq_ok.1 first
    obtain ⟨symbol, stands, first⟩ := bind_eq_ok.1 first
    obtain ⟨-, rest⟩ := Prod.mk.inj (Except.ok.inj first)
    obtain ⟨-, rest⟩ := Prod.mk.inj rest
    obtain ⟨imports, target⟩ := Prod.mk.inj rest
    have agrees : program.Agrees 0 (symbolEntries weakPointer) 0 0 :=
      .own input stands target (by rw [imports]; rfl)
    exact ⟨program, functions, slot, stored, decided, operand, listed, here, same.2 agrees⟩

/-- What the pointer of the first input becomes, the functions in the table, and the function of the
symbol. -/
def behindPointer (program : Program) : Except Error (Int × List Nat × Nat) := do
  return (← program.operandValue 0 pointerWord 1, ← program.tableFunctions,
    ← program.functionIndex 0)

/-- Once another input overrides it, the pointer still reaches the weak function, and direct calls
reach the other one. -/
theorem link_overridden_pointer :
    ∃ program output, Program.ofInputs overridden {} = .ok program ∧
      link overridden {} = .ok output ∧
      program.Points 0 weakPointer pointerWord 1 0 0 ∧
      program.operandValue 0 pointerWord 1 = .ok 1 ∧
      program.tableFunctions = .ok [0] ∧ program.functionIndex 0 = .ok 1 := by
  have accepted : (link overridden {}).isOk = true := by decide +kernel
  have facts : (Program.ofInputs overridden {} >>=
      fun program => do return (← firstInput program, ← behindPointer program)) =
      .ok ((#[.symbol 0], #[⟨0, 1, [0]⟩], 0, .function (.defined 1 0)), 1, [0], 1) := by
    decide +kernel
  obtain ⟨program, decided, facts⟩ := bind_eq_ok.1 facts
  obtain ⟨first, input, facts⟩ := bind_eq_ok.1 facts
  obtain ⟨behind, pointer, facts⟩ := bind_eq_ok.1 facts
  obtain ⟨rfl, rfl⟩ := Prod.mk.inj (Except.ok.inj facts)
  obtain ⟨operand, value, pointer⟩ := bind_eq_ok.1 pointer
  obtain ⟨functions, listed, pointer⟩ := bind_eq_ok.1 pointer
  obtain ⟨index, here, pointer⟩ := bind_eq_ok.1 pointer
  cases pointer
  rcases linked : link overridden {} with error | output
  · rw [linked] at accepted
    cases accepted
  · exact ⟨program, output, decided, rfl, points_of_firstInput input, value, listed, here⟩

end StaticLink
