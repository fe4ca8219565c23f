import StaticLink.Proofs.Output.Applications
import StaticLink.Proofs.Output.References
import StaticLink.Proofs.Output.TableSlots
import StaticLink.Proofs.Relocation.Applied

/-!
# What fits into an operand

An operand of 32 bits holds the low bits of what is demanded of it. An address of data is a sum that
nothing bounds: the data lies below the limit of addresses, but a symbol may name bytes far behind
its segment, and an addend has a sign. A slot of the table has to be one that its input fills.

* `Program.AddressOperand`: the sum of an operand for an address of data, what is left of it in the
  operand, and when nothing is lost.
* `Program.SlotOperand`: the slot of an operand for a function pointer.
* `Program.OperandBecomes`: what an operand becomes wherever its relocation is applied.
* `link_operands`: these are the values of all operands that are applied.
-/

namespace StaticLink

namespace Program

/-- The operand of an address: it becomes `value`, for the byte at `offset` of data segment `segment`
of input `source`. -/
structure AddressOperand (program : Program) (relocation : Relocation) (source : ModuleId)
    (segment offset : UInt32) (value : Int) : Prop where
  sum : ∃ address : Nat, program.layout.address? source segment.toNat = some address ∧
    value = address + offset.toNat + relocation.addend.toInt
  /-- What is left of the sum in 32 bits. -/
  wraps : relocation.kind.encoding.modulus = wordLimit →
    relocation.kind.encoding.reduce value % wordLimit = value % wordLimit
  /-- The operand has the sum itself exactly if this is an address. -/
  exact_iff : relocation.kind.encoding.modulus = wordLimit →
    (relocation.kind.encoding.reduce value % wordLimit = value ↔ 0 ≤ value ∧ value < wordLimit)
  /-- It is one if it lies in the segment or right behind it. -/
  inside : ∀ module data, program.modules[source]? = some module →
    module.dataSegments[segment.toNat]? = some data →
    0 ≤ offset.toNat + relocation.addend.toInt →
    offset.toNat + relocation.addend.toInt ≤ data.size → 0 ≤ value ∧ value < wordLimit

/-- The operand of a function pointer into the table of `module`: it is `current` there, and becomes
`value`. -/
structure SlotOperand (program : Program) (module : ObjectModule) (relocation : Relocation)
    (current value : Int) : Prop where
  /-- An operand of 32 bits is read as a number without a sign. -/
  narrow : relocation.kind.encoding.modulus = wordLimit →
    module.Covers (current % wordLimit).toNat
  /-- Any operand that is such a number is a slot that the module fills. -/
  covers : 0 ≤ current → current < wordLimit → module.Covers current.toNat
  slot : ∃ slot : Nat, value = slot ∧ 1 ≤ slot ∧ slot ≤ program.elementCount

variable {program : Program} {owner source : ModuleId} {relocation : Relocation} {id : SymbolId}
  {symbol : Symbol} {segment offset size : UInt32} {current value : Int} {base : Nat}

/-! ## Values -/

theorem isTableIndex_of_isMemoryAddress {kind : Relocation.Kind}
    (memory : kind.isMemoryAddress = true) : kind.isTableIndex = false := by
  revert memory
  cases kind <;> decide

/-- An operand for an address of data has that of its symbol and the addend. -/
theorem exists_dataAddress_of_operandValue (kind : relocation.kind.isMemoryAddress = true)
    (leads : program.LeadsTo owner relocation.index (.symbol id))
    (h : program.operandValue owner relocation current = .ok value) :
    ∃ address : Nat, program.dataAddress id = .ok address ∧
      value = address + relocation.addend.toInt := by
  cases demands_of_operandValue h with
  | memoryAddress _ leads' here =>
    cases leadsTo_unique leads leads'
    exact ⟨_, here, rfl⟩
  | tableIndex other => rw [isTableIndex_of_isMemoryAddress kind] at other; cases other
  | typeIndex other => rw [other] at kind; cases kind
  | functionIndex other => rw [other] at kind; cases kind
  | globalIndex other => rcases other with other | other <;> rw [other] at kind <;> cases kind
  | tableNumber other => rw [other] at kind; cases kind

/-- An operand for a function pointer is a slot of the table. -/
theorem exists_tableSlot_of_operandValue (kind : relocation.kind.isTableIndex = true)
    (h : program.operandValue owner relocation current = .ok value) :
    ∃ slot : Nat, program.tableSlot owner (current % wordLimit).toNat = .ok (some slot) ∧
      value = slot := by
  cases demands_of_operandValue h with
  | tableIndex _ _ _ _ here => exact ⟨_, here, rfl⟩
  | memoryAddress other => rw [isTableIndex_of_isMemoryAddress other] at kind; cases kind
  | typeIndex other => rw [other] at kind; cases kind
  | functionIndex other => rw [other] at kind; cases kind
  | globalIndex other => rcases other with other | other <;> rw [other] at kind <;> cases kind
  | tableNumber other => rw [other] at kind; cases kind

theorem exists_address_of_dataAddress {found : Nat} (stands : program.symbols.get id = .ok symbol)
    (target : symbol.target = .data (.defined source segment offset size))
    (h : program.dataAddress id = .ok found) :
    ∃ address, program.layout.address? source segment.toNat = some address ∧
      found = address + offset.toNat := by
  obtain ⟨_, same, h⟩ := bind_eq_ok.1 h
  cases stands.symm.trans same
  rw [target] at h
  dsimp only at h
  split at h
  · next address here =>
    cases h
    exact ⟨address, here, rfl⟩
  · cases h

/-! ## What is left of a value -/

/-- In 32 bits a value is left as it is, up to its sign, exactly if it is a number of 32 bits. -/
theorem reduce_emod_eq_iff {encoding : Relocation.Encoding}
    (narrow : encoding.modulus = wordLimit) :
    encoding.reduce value % wordLimit = value ↔ 0 ≤ value ∧ value < wordLimit := by
  have left := encoding.reduce_emod value
  rw [narrow] at left
  rw [left]
  constructor
  · intro same
    rw [← same]
    exact ⟨Int.emod_nonneg value (by decide), Int.emod_lt_of_pos value (by decide)⟩
  · rintro ⟨low, high⟩
    exact Int.emod_eq_of_lt low high

theorem addressOperand_of_operandValue (placed : program.layout.Placed program.modules base)
    (kind : relocation.kind.isMemoryAddress = true)
    (leads : program.LeadsTo owner relocation.index (.symbol id))
    (stands : program.symbols.get id = .ok symbol)
    (target : symbol.target = .data (.defined source segment offset size))
    (h : program.operandValue owner relocation current = .ok value) :
    program.AddressOperand relocation source segment offset value := by
  obtain ⟨_, found, rfl⟩ := exists_dataAddress_of_operandValue kind leads h
  obtain ⟨address, here, rfl⟩ := exists_address_of_dataAddress stands target found
  refine ⟨⟨address, here, rfl⟩, fun narrow => ?_, reduce_emod_eq_iff, ?_⟩
  · rw [← narrow]
    exact Relocation.Encoding.reduce_emod _ _
  · intro module data input there low high
    obtain ⟨_, same, -, small⟩ :=
      placed.exists_address (dataSegment?_eq_some.2 ⟨module, input, there⟩)
    cases here.symm.trans same
    push_cast
    omega

/-- A slot that is found for an operand is one that the input fills. -/
theorem slotOperand_of_operandValue {module : ObjectModule}
    (input : program.modules[owner]? = some module)
    (kind : relocation.kind.isTableIndex = true)
    (h : program.operandValue owner relocation current = .ok value) :
    program.SlotOperand module relocation current value := by
  obtain ⟨slot, found, rfl⟩ := exists_tableSlot_of_operandValue kind h
  obtain ⟨_, position, same, here, -⟩ := exists_of_tableSlot found
  cases input.symm.trans same
  have covers : module.Covers (current % wordLimit).toNat :=
    exists_entryPosition?_iff.1 ⟨position, here⟩
  refine ⟨fun _ => covers, fun low high => ?_, slot, rfl, tableSlot_range found⟩
  rw [Int.emod_eq_of_lt low high] at covers
  exact covers

/-! ## Relocations that are applied -/

/-- Wherever the relocation is applied to what is copied of input `owner`, its operand becomes
`value`. -/
def OperandBecomes (program : Program) (output : Bytes) (owner : ModuleId)
    (relocation : Relocation) (value : Int) : Prop :=
  ∀ copy ∈ program.copies, copy.owner = owner → ∃ module found original result,
    program.modules[owner]? = some module ∧ module.sections[copy.place]? = some found ∧
    module.slice copy.range = .ok original ∧ result <:+: output ∧
    ∀ before after, found.operands copy.range = before ++ relocation :: after →
      ∃ current, program.Applied owner found copy.range.start original result before relocation
        after current value

theorem operandBecomes_of_operandValue {output : Bytes} (contents : program.Contents output)
    (layout : DataLayout.ofModules program.modules base = .ok program.layout)
    (only : ∀ current other,
      program.operandValue owner relocation current = .ok other → other = value) :
    program.OperandBecomes output owner relocation value := by
  rintro copy member rfl
  obtain ⟨module, found, original, result, input, here, slice, -, performed, within⟩ :=
    (copiesOut_of_contents contents layout).performed copy member
  refine ⟨module, found, original, result, input, here, slice, within, ?_⟩
  intro before after split
  rw [perform_eq copy input here] at performed
  obtain ⟨_, _, current, other, same, slice', applied⟩ := exists_applied performed split
  cases (existing_eq_ok.2 input).symm.trans same
  cases slice.symm.trans slice'
  cases only _ _ applied.computed
  exact ⟨current, applied⟩

end Program

/-- Every relocation whose operand starts in a copied range of a linked module is applied. Where it
is for an address of data that an input defines, the operand holds the sum of this address and the
addend modulo its width. Where it is for a function pointer, the operand was a slot that its input
fills, and without such a slot linking fails. -/
theorem link_operands {inputs : List (String × Bytes)} {options : Options} {output : Bytes}
    (linked : link inputs options = .ok output) :
    ∃ program, Program.ofInputs inputs options = .ok program ∧
      ∀ copy ∈ program.copies, ∃ module found original result,
        program.modules[copy.owner]? = some module ∧
        module.sections[copy.place]? = some found ∧ module.slice copy.range = .ok original ∧
        program.perform copy = .ok result ∧ result <:+: output ∧
        ∀ before relocation after, found.operands copy.range = before ++ relocation :: after →
          ∃ current value, program.Applied copy.owner found copy.range.start original result
              before relocation after current value ∧
            (relocation.kind.isMemoryAddress = true → ∀ id symbol source segment offset size,
              program.LeadsTo copy.owner relocation.index (.symbol id) →
              program.symbols.get id = .ok symbol →
              symbol.target = .data (.defined source segment offset size) →
              program.AddressOperand relocation source segment offset value) ∧
            (relocation.kind.isTableIndex = true →
              program.SlotOperand module relocation current value) := by
  obtain ⟨program, decided, contents⟩ := exists_program_of_link linked
  obtain ⟨session, -, parts⟩ := Program.decided_of_ofInputs decided
  have placed := DataLayout.placed_of_ofModules parts.layout
  refine ⟨program, decided, fun copy member => ?_⟩
  obtain ⟨module, found, original, result, input, here, slice, -, performed, within⟩ :=
    (Program.copiesOut_of_contents contents parts.layout).performed copy member
  refine ⟨module, found, original, result, input, here, slice, performed, within, ?_⟩
  intro before relocation after split
  rw [Program.perform_eq copy input here] at performed
  obtain ⟨_, _, current, value, same, slice', applied⟩ := Program.exists_applied performed split
  cases (existing_eq_ok.2 input).symm.trans same
  cases slice.symm.trans slice'
  refine ⟨current, value, applied, fun kind => ?_, fun kind => ?_⟩
  · intro id symbol source segment offset size leads stands target
    exact Program.addressOperand_of_operandValue placed kind leads stands target applied.computed
  · exact Program.slotOperand_of_operandValue input kind applied.computed

/-! ## Operands within and out of bounds -/

/-- What is known of a copied range and of a symbol. -/
structure CopySite where
  copy : CopiedRange
  /-- Where its section starts in the input. -/
  start : Nat
  /-- The bytes in the input, and the relocations that apply to them. -/
  original : Bytes
  operands : List Relocation
  /-- Where the symbol table of the input leads, and how it fills its table. -/
  slots : Array Slot
  segments : Array ElementSegment
  /-- What the symbol stands for. -/
  target : Target
deriving DecidableEq

/-- The copied range at this place in the list, and a symbol. -/
def Program.copySite (program : Program) (k : Nat) (id : SymbolId) : Except Error CopySite := do
  let copy ← existing program.copies[k]?
  let module ← program.input copy.owner
  let found ← existing module.sections[copy.place]?
  let original ← module.slice copy.range
  let symbol ← program.symbols.get id
  return {
    copy
    start := found.header.range.start
    original
    operands := found.operands copy.range
    slots := module.slots
    segments := module.elementSegments
    target := symbol.target }

theorem Program.exists_of_copySite {program : Program} {k : Nat} {id : SymbolId} {site : CopySite}
    (h : program.copySite k id = .ok site) :
    site.copy ∈ program.copies ∧ ∃ module found symbol,
      program.modules[site.copy.owner]? = some module ∧
      module.sections[site.copy.place]? = some found ∧ found.header.range.start = site.start ∧
      module.slice site.copy.range = .ok site.original ∧
      found.operands site.copy.range = site.operands ∧ module.slots = site.slots ∧
      module.elementSegments = site.segments ∧ program.symbols.get id = .ok symbol ∧
      symbol.target = site.target := by
  obtain ⟨copy, listed, h⟩ := bind_eq_ok.1 h
  obtain ⟨module, input, h⟩ := bind_eq_ok.1 h
  obtain ⟨found, here, h⟩ := bind_eq_ok.1 h
  obtain ⟨original, slice, h⟩ := bind_eq_ok.1 h
  obtain ⟨symbol, stands, rfl⟩ := return_eq_ok.1 h
  exact ⟨List.mem_of_getElem? (existing_eq_ok.1 listed), module, found, symbol,
    existing_eq_ok.1 input, existing_eq_ok.1 here, rfl, slice, rfl, rfl, rfl, stands, rfl⟩

/-- An input with a word for the address of its data, four bytes behind a symbol, and one for a
pointer to its function. -/
def pointing : List (String × Bytes) :=
  [("good.o",
      [0, 97, 115, 109, 1, 0, 0, 0, 1, 4, 1, 96, 0, 0, 3, 2, 1, 0, 9, 7, 1, 0, 65, 1, 11, 1, 0, 10,
       4, 1, 2, 0, 11, 11, 18, 1, 0, 65, 0, 11, 12, 0, 0, 0, 0, 1, 0, 0, 0, 97, 98, 99, 100, 0, 24,
       7, 108, 105, 110, 107, 105, 110, 103, 2, 8, 13, 2, 0, 0, 0, 1, 102, 1, 0, 1, 120, 0, 4, 8,
       0, 20, 10, 114, 101, 108, 111, 99, 46, 68, 65, 84, 65, 4, 2, 5, 6, 1, 4, 2, 10, 0])]

/-- The address is in the data, and the slot is filled. -/
theorem link_pointing :
    ∃ (program : Program) (module : ObjectModule) (current value value' : Int),
      program.AddressOperand ⟨.memoryAddrI32, 6, 1, 4⟩ 0 0 4 value ∧ value = 1032 ∧
      program.SlotOperand module ⟨.tableIndexI32, 10, 0, 0⟩ current value' := by
  have accepted : (link pointing {}).isOk = true := by decide +kernel
  have site : (Program.ofInputs pointing {} >>= (·.copySite 1 1)) =
      .ok ⟨⟨0, 4, ⟨41, 53⟩⟩, 35, [0, 0, 0, 0, 1, 0, 0, 0, 97, 98, 99, 100],
        [⟨.memoryAddrI32, 6, 1, 4⟩, ⟨.tableIndexI32, 10, 0, 0⟩], #[.symbol 0, .symbol 1],
        #[⟨0, 1, [0]⟩], .data (.defined 0 0 4 8)⟩ := by decide +kernel
  have address : (Program.ofInputs pointing {}).map (·.layout.address? 0 0) = .ok (some 1024) := by
    decide +kernel
  obtain ⟨output, linked⟩ := exists_of_isOk accepted
  obtain ⟨program, decided, each⟩ := link_operands linked
  rw [decided] at site address
  obtain ⟨member, _, _, symbol, input, here, -, -, operands, slots, -, stands, target⟩ :=
    Program.exists_of_copySite site
  obtain ⟨module, found, _, _, input', here', -, -, -, applied⟩ := each _ member
  obtain rfl := Option.some.inj (input.symm.trans input')
  obtain rfl := Option.some.inj (here.symm.trans here')
  obtain ⟨_, value, -, memory, -⟩ := applied [] _ [_] operands
  obtain ⟨current, value', -, -, table⟩ := applied [_] _ [] operands
  have leads : program.LeadsTo 0 1 (.symbol 1) :=
    ⟨_, existing_eq_ok.2 input, by rw [slots]; rfl⟩
  have operand := memory rfl 1 symbol 0 0 4 8 leads stands target
  refine ⟨program, _, current, value, value', operand, ?_, table rfl⟩
  obtain ⟨start, found, rfl⟩ := operand.sum
  obtain rfl := Option.some.inj ((Except.ok.inj address).symm.trans found)
  rfl

/-- An input with an instruction for the address two thousand bytes before its data. -/
def below : List (String × Bytes) :=
  [("below.o",
      [0, 97, 115, 109, 1, 0, 0, 0, 1, 4, 1, 96, 0, 0, 3, 2, 1, 0, 10, 11, 1, 9, 0, 65, 128, 128,
       128, 128, 0, 26, 11, 11, 10, 1, 0, 65, 0, 11, 4, 0, 0, 0, 0, 0, 24, 7, 108, 105, 110, 107,
       105, 110, 103, 2, 8, 13, 2, 0, 0, 0, 1, 102, 1, 0, 1, 120, 0, 0, 4, 0, 18, 10, 114, 101,
       108, 111, 99, 46, 67, 79, 68, 69, 2, 1, 4, 4, 1, 176, 112])]

/-- An input whose pointer has 64 bits, and is the only slot of its table in their low half. -/
def farSlot : List (String × Bytes) :=
  [("far.o",
      [0, 97, 115, 109, 1, 0, 0, 0, 1, 4, 1, 96, 0, 0, 3, 2, 1, 0, 9, 7, 1, 0, 65, 1, 11, 1, 0, 10,
       4, 1, 2, 0, 11, 11, 14, 1, 0, 65, 0, 11, 8, 1, 0, 0, 0, 1, 0, 0, 0, 0, 17, 7, 108, 105, 110,
       107, 105, 110, 103, 2, 8, 6, 1, 0, 0, 0, 1, 102, 0, 16, 10, 114, 101, 108, 111, 99, 46, 68,
       65, 84, 65, 4, 1, 19, 6, 0])]

/-- Both are linked: the address is below zero, and the slot is not filled. -/
theorem link_below :
    (∃ program output copy module found relocation symbol, link below {} = .ok output ∧
      Program.ofInputs below {} = .ok program ∧ copy ∈ program.copies ∧
      program.modules[copy.owner]? = some module ∧ module.sections[copy.place]? = some found ∧
      relocation ∈ found.operands copy.range ∧ relocation.kind.isMemoryAddress = true ∧
      relocation.kind.encoding.modulus = wordLimit ∧
      program.LeadsTo copy.owner relocation.index (.symbol 1) ∧
      program.symbols.get 1 = .ok symbol ∧ symbol.target = .data (.defined 0 0 0 4) ∧
      program.layout.address? 0 0 = some 1024 ∧
      (1024 : Int) + (0 : UInt32).toNat + relocation.addend.toInt = -976) ∧
    ∃ program output copy module found relocation original, link farSlot {} = .ok output ∧
      Program.ofInputs farSlot {} = .ok program ∧ copy ∈ program.copies ∧
      program.modules[copy.owner]? = some module ∧ module.sections[copy.place]? = some found ∧
      found.operands copy.range = [relocation] ∧ relocation.kind.isTableIndex = true ∧
      module.slice copy.range = .ok original ∧
      relocation.kind.encoding.decode (original.window (found.start copy.range.start relocation)
        relocation.kind.encoding.width) = .ok 4294967297 ∧
      ¬ module.Covers 4294967297 := by
  constructor
  · have accepted : (link below {}).isOk = true := by decide +kernel
    have site : (Program.ofInputs below {} >>= (·.copySite 0 1)) =
        .ok ⟨⟨0, 2, ⟨21, 31⟩⟩, 20, [9, 0, 65, 128, 128, 128, 128, 0, 26, 11],
          [⟨.memoryAddrSleb, 4, 1, -2000⟩], #[.symbol 0, .symbol 1], #[],
          .data (.defined 0 0 0 4)⟩ := by decide +kernel
    have address : (Program.ofInputs below {}).map (·.layout.address? 0 0) = .ok (some 1024) := by
      decide +kernel
    obtain ⟨output, linked⟩ := exists_of_isOk accepted
    obtain ⟨program, decided, site⟩ := bind_eq_ok.1 site
    rw [decided] at address
    obtain ⟨member, module, found, symbol, input, here, -, -, operands, slots, -, stands, target⟩ :=
      Program.exists_of_copySite site
    exact ⟨program, output, _, module, found, ⟨.memoryAddrSleb, 4, 1, -2000⟩, symbol, linked,
      decided, member, input, here, by rw [operands]; exact List.mem_singleton.2 rfl, rfl, rfl,
      ⟨module, existing_eq_ok.2 input, by rw [slots]; rfl⟩, stands, target,
      Except.ok.inj address, by decide⟩
  · have accepted : (link farSlot {}).isOk = true := by decide +kernel
    have site : (Program.ofInputs farSlot {} >>= (·.copySite 1 0)) =
        .ok ⟨⟨0, 4, ⟨41, 49⟩⟩, 35, [1, 0, 0, 0, 1, 0, 0, 0], [⟨.tableIndexI64, 6, 0, 0⟩],
          #[.symbol 0], #[⟨0, 1, [0]⟩], .function (.defined 0 0)⟩ := by decide +kernel
    obtain ⟨output, linked⟩ := exists_of_isOk accepted
    obtain ⟨program, decided, site⟩ := bind_eq_ok.1 site
    obtain ⟨member, module, found, symbol, input, here, start, slice, operands, -,
      segments, -, -⟩ :=
      Program.exists_of_copySite site
    refine ⟨program, output, _, module, found, ⟨.tableIndexI64, 6, 0, 0⟩, _, linked, decided,
      member, input, here, operands, rfl, slice, ?_, ?_⟩
    · rw [Section.start, Section.position, start]
      decide
    · unfold ObjectModule.Covers
      rw [segments]
      decide

end StaticLink
