import StaticLink.Proofs.Inputs.Leads
import StaticLink.Proofs.Output.Copies
import StaticLink.Proofs.Program.Imports
import StaticLink.Proofs.Program.Pointers

/-!
# What references become

A reference that nothing satisfies becomes the index of an import. Symbols are merged by their names
and imports by theirs, and neither looks at what else the references say. A symbol stands for the one
that its first entry names, and an import has the type that its first symbol gives it.

* `FirstNamed`: the first of some places where an import of a name is.
* `Program.FunctionOperand`, `Program.GlobalOperand`: what an operand of such a reference becomes.
* `link_references`: every reference in a linked module has become that.
-/

namespace StaticLink

/-- The first of `places` where an import is called `name`, and that import. -/
structure FirstNamed {α : Type} (places : List (ModuleId × UInt32))
    (importAt : ModuleId × UInt32 → Except Error α) (nameOf : α → ImportName) (name : ImportName)
    (place : ModuleId × UInt32) (found : α) : Prop where
  here : importAt place = .ok found
  named : nameOf found = name
  first : ∃ earlier later, places = earlier ++ place :: later ∧
    ∀ other ∈ earlier, ∀ found, importAt other = .ok found → nameOf found ≠ name

/-- Only one of the places is the first one. -/
theorem FirstNamed.unique {α : Type} {places : List (ModuleId × UInt32)}
    {importAt : ModuleId × UInt32 → Except Error α} {nameOf : α → ImportName} {name : ImportName}
    {place place' : ModuleId × UInt32} {found found' : α}
    (one : FirstNamed places importAt nameOf name place found)
    (two : FirstNamed places importAt nameOf name place' found') :
    place = place' ∧ found = found' := by
  have same : place = place' := by
    obtain ⟨earlier, later, rfl, before⟩ := one.first
    obtain ⟨earlier', later', split, before'⟩ := two.first
    -- The shorter of the two beginnings is the beginning of the other one.
    rcases List.append_eq_append_iff.1 split with ⟨more, rfl, rest⟩ | ⟨more, rfl, rest⟩
    · cases more with
      | nil => exact (List.cons.inj rest).1
      | cons head more =>
        obtain ⟨rfl, -⟩ := List.cons.inj rest
        exact absurd one.named (before' place (by simp) found one.here)
    · cases more with
      | nil => exact (List.cons.inj rest).1.symm
      | cons head more =>
        obtain ⟨rfl, -⟩ := List.cons.inj rest
        exact absurd two.named (before place' (by simp) found' two.here)
  subst same
  exact ⟨rfl, Except.ok.inj (one.here.symm.trans two.here)⟩

/-! ## The first entry of a key -/

section Keys

variable {α κ β : Type} [DecidableEq κ] {items : List α} {step : α → Except Error (κ × β)}
  {entries : List (κ × β)} {entry : κ × β}

/-- Of the entries that count each is the first one of its key. -/
theorem find?_of_mem_firstOfKeys (member : entry ∈ firstOfKeys entries) :
    entries.find? (fun other => decide (other.1 = entry.1)) = some entry := by
  rw [← find?_firstOfKeys]
  rcases first : (firstOfKeys entries).find? fun other => decide (other.1 = entry.1) with _ | found
  · have none := List.find?_eq_none.1 first entry member
    simp at none
  · have chosen := List.find?_some first
    have equal := List.inj_on_of_nodup_map (keys_nodup_firstOfKeys entries)
      (List.mem_of_find?_eq_some first) member (of_decide_eq_true chosen)
    rw [first, equal]

/-- The first entry of a key comes from the first item that gives the key. -/
theorem exists_first_of_mapM {key : κ} (h : items.mapM step = .ok entries)
    (first : entries.find? (fun other => decide (other.1 = key)) = some entry) :
    ∃ earlier item later, items = earlier ++ item :: later ∧ step item = .ok entry ∧
      ∀ other ∈ earlier, ∀ result, step other = .ok result → result.1 ≠ key := by
  induction items generalizing entries with
  | nil =>
    cases h
    cases first
  | cons item rest ih =>
    rw [List.mapM_cons] at h
    obtain ⟨head, one, h⟩ := bind_eq_ok.1 h
    obtain ⟨tail, others, rfl⟩ := return_eq_ok.1 h
    rw [List.find?_cons] at first
    split at first
    · cases first
      exact ⟨[], item, rest, rfl, one, by simp⟩
    · next different =>
      obtain ⟨earlier, found, later, rfl, here, before⟩ := ih others first
      refine ⟨item :: earlier, found, later, rfl, here, ?_⟩
      refine List.forall_mem_cons.2 ⟨fun result same => ?_, before⟩
      cases one.symm.trans same
      exact of_decide_eq_false different

end Keys

/-- The entry of a name, among those that count, comes from the first place where an import has the
name. -/
theorem GivesImports.exists_firstNamed {α β : Type}
    {step : ModuleId × UInt32 → Except Error (ImportName × β)}
    {importAt : ModuleId × UInt32 → Except Error α} {nameOf : α → ImportName}
    {typeOf : ModuleId × UInt32 → α → β} {places : List (ModuleId × UInt32)}
    {entries : List (ImportName × β)} {name : ImportName} {index : Nat}
    (gives : GivesImports step importAt nameOf typeOf) (each : places.mapM step = .ok entries)
    (here : positionOfKey? (firstOfKeys entries) name = some index) :
    ∃ place first, FirstNamed places importAt nameOf name place first ∧
      (firstOfKeys entries)[index]? = some (name, typeOf place first) := by
  rw [positionOfKey?_eq_idxOf?, idxOf?_eq_some_iff_of_nodup (keys_nodup_firstOfKeys entries),
    List.getElem?_map] at here
  obtain ⟨entry, there, rfl⟩ := Option.map_eq_some_iff.1 here
  obtain ⟨earlier, place, later, split, one, before⟩ :=
    exists_first_of_mapM each (find?_of_mem_firstOfKeys (List.mem_of_getElem? there))
  obtain ⟨first, found, rfl⟩ := gives place entry one
  refine ⟨place, first, ⟨found, rfl, earlier, later, split, ?_⟩, there⟩
  intro other member own here
  have among : other ∈ places := by
    rw [split]
    exact List.mem_append_left _ member
  obtain ⟨result, -, done⟩ := exists_of_mapM_eq_ok each among
  obtain ⟨_, again, rfl⟩ := gives other result done
  cases here.symm.trans again
  exact before other member _ done

namespace Program

variable {program : Program} {owner : ModuleId} {found : Section} {range : Span}
  {relocation : Relocation} {id : SymbolId} {symbol : Symbol} {index : Nat} {current value : Int}
  {inputs : List (String × Bytes)}

/-- The operand of a reference to symbol `id`, a function, becomes `index`. There is the import
that the first entry for the symbol names, with the type that the first symbol for this import
gives it. -/
structure FunctionOperand (inputs : List (String × Bytes)) (program : Program) (owner : ModuleId)
    (relocation : Relocation) (id : SymbolId) (index : Nat) : Prop where
  value : ∀ current, program.operandValue owner relocation current = .ok (index : Int)
  imported : ∃ lead position named place first,
    firstLead? (leads inputs program.modules) id = some lead ∧
    lead.entry.reference? lead.owner = some (.function (.undefined lead.owner position)) ∧
    program.functionImportAt (lead.owner, position) = .ok named ∧
    FirstNamed program.symbols.strongFunctions program.functionImportAt FunctionImport.importName
      named.importName place first ∧
    program.imports.functions[index]? =
      some (named.importName, program.typeBase place.1 + first.typeIndex.toNat)

/-- The operand of a reference to symbol `id`, a global, becomes `index`. There is the import
that the first entry for the symbol names, with the type that the first symbol for this import
gives it. -/
structure GlobalOperand (inputs : List (String × Bytes)) (program : Program) (owner : ModuleId)
    (relocation : Relocation) (id : SymbolId) (index : Nat) : Prop where
  value : ∀ current, program.operandValue owner relocation current = .ok (index : Int)
  imported : ∃ lead position named place first,
    firstLead? (leads inputs program.modules) id = some lead ∧
    lead.entry.reference? lead.owner = some (.global (.undefined lead.owner position)) ∧
    program.globalImportAt (lead.owner, position) = .ok named ∧
    FirstNamed program.symbols.strongGlobals program.globalImportAt GlobalImport.importName
      named.importName place first ∧
    program.imports.globals[index]? = some (named.importName, first.type)

/-! ## Imports and their types -/

/-- An import of a function has the type that its first reference gives it. -/
theorem exists_firstNamed_function
    (h : Imports.ofSymbols program.modules program.symbols = .ok program.imports) {name : ImportName}
    (here : program.imports.functionIndex? name = some index) :
    ∃ place first, FirstNamed program.symbols.strongFunctions program.functionImportAt
        FunctionImport.importName name place first ∧
      program.imports.functions[index]? =
        some (name, program.typeBase place.1 + first.typeIndex.toNat) := by
  obtain ⟨functions, -, each, -, same, -⟩ := exists_imports h
  rw [Imports.functionIndex?, same] at here
  rw [same]
  exact (givesImports_ofFunction program).exists_firstNamed each here

/-- An import of a global has the type that its first reference gives it. -/
theorem exists_firstNamed_global
    (h : Imports.ofSymbols program.modules program.symbols = .ok program.imports) {name : ImportName}
    (here : program.imports.globalIndex? name = some index) :
    ∃ place first, FirstNamed program.symbols.strongGlobals program.globalImportAt
        GlobalImport.importName name place first ∧
      program.imports.globals[index]? = some (name, first.type) := by
  obtain ⟨-, globals, -, each, -, same⟩ := exists_imports h
  rw [Imports.globalIndex?, same] at here
  rw [same]
  exact (givesImports_ofGlobal program).exists_firstNamed each here

/-! ## Operands -/

/-- Every operand that is copied has a new value. -/
theorem exists_operandValue_of_relocate {result : Bytes}
    (h : program.relocate owner found range = .ok result)
    (member : relocation ∈ found.operands range) :
    ∃ current value, program.operandValue owner relocation current = .ok value := by
  obtain ⟨module, -, h⟩ := bind_eq_ok.1 h
  obtain ⟨original, -, h⟩ := bind_eq_ok.1 h
  obtain ⟨listed, inside⟩ := List.mem_filter.1 member
  refine foldlM_reaches (fun _ => ∃ current value,
    program.operandValue owner relocation current = .ok value) h (fun _ _ _ _ known => known) ?_ listed
  intro before after step
  dsimp only at step
  rw [if_pos (show found.header.range.start + relocation.offset.toNat ∈ range from
    of_decide_eq_true inside)] at step
  obtain ⟨_, _, current, value, -, -, -, computed, -⟩ := exists_of_relocateOperand_eq_ok step
  exact ⟨current, value, computed⟩

theorem leadsTo_unique {slot other : Slot} {entry : UInt32}
    (one : program.LeadsTo owner entry slot) (two : program.LeadsTo owner entry other) :
    slot = other := by
  obtain ⟨module, input, here⟩ := one
  obtain ⟨again, same, there⟩ := two
  cases input.symm.trans same
  exact Option.some.inj (here.symm.trans there)

/-- An operand for the index of a function has that of its symbol. -/
theorem functionIndex_of_operandValue (kind : relocation.kind = .functionIndexLeb)
    (leads : program.LeadsTo owner relocation.index (.symbol id))
    (h : program.operandValue owner relocation current = .ok value) :
    ∃ index, program.functionIndex id = .ok index := by
  cases demands_of_operandValue h with
  | functionIndex _ leads' here =>
    cases leadsTo_unique leads leads'
    exact ⟨_, here⟩
  | typeIndex other => rw [kind] at other; cases other
  | globalIndex other => rw [kind] at other; rcases other with other | other <;> cases other
  | memoryAddress other => rw [kind] at other; cases other
  | tableIndex other => rw [kind] at other; cases other
  | tableNumber other => rw [kind] at other; cases other

/-- An operand for the index of a global has that of its symbol. -/
theorem globalIndex_of_operandValue
    (kind : relocation.kind = .globalIndexLeb ∨ relocation.kind = .globalIndexI32)
    (leads : program.LeadsTo owner relocation.index (.symbol id))
    (h : program.operandValue owner relocation current = .ok value) :
    ∃ index, program.globalIndex id = .ok index := by
  have only {other : Relocation.Kind} (same : relocation.kind = other)
      (apart : other ≠ .globalIndexLeb ∧ other ≠ .globalIndexI32) : False := by
    rcases kind with kind | kind
    · exact apart.1 (same.symm.trans kind)
    · exact apart.2 (same.symm.trans kind)
  cases demands_of_operandValue h with
  | globalIndex _ leads' here =>
    cases leadsTo_unique leads leads'
    exact ⟨_, here⟩
  | typeIndex other => exact (only other (by decide)).elim
  | functionIndex other => exact (only other (by decide)).elim
  | memoryAddress other => rcases kind with kind | kind <;> rw [kind] at other <;> cases other
  | tableIndex other => rcases kind with kind | kind <;> rw [kind] at other <;> cases other
  | tableNumber other => exact (only other (by decide)).elim

/-- An operand for the index of a global becomes that of its symbol, whatever it was. -/
theorem operandValue_of_globalIndex
    (kind : relocation.kind = .globalIndexLeb ∨ relocation.kind = .globalIndexI32)
    (leads : program.LeadsTo owner relocation.index (.symbol id))
    (global : program.symbols.Registered id .global) (here : program.globalIndex id = .ok index) :
    program.operandValue owner relocation current = .ok (index : Int) := by
  obtain ⟨symbol, found, isGlobal⟩ := global
  have stands : program.symbols.get id = .ok symbol := existing_eq_ok.2 found
  have notType : relocation.kind ≠ .typeIndexLeb := by
    rcases kind with kind | kind <;> rw [kind] <;> decide
  rw [operandValue_of_leads leads notType]
  unfold symbolValue
  rw [stands]
  show (if relocation.kind.isMemoryAddress = true then _ else _) = _
  rcases kind with kind | kind
  · rw [kind]
    show ((if symbol.target.kind = .global then _ else _) >>= _) = _
    rw [if_pos isGlobal, here]
    rfl
  · rw [kind]
    show ((if symbol.target.kind = .global then _ else _) >>= _) = _
    rw [if_pos isGlobal, here]
    rfl

/-! ## References that are relocated -/

theorem owner_of_reference? {entry : SymbolEntry} {owner other : ModuleId} {target : Target}
    (refers : entry.reference? owner = some target) (owns : target.owner? = some other) :
    other = owner := by
  unfold SymbolEntry.reference? at refers
  split at refers
  · split at refers
    · cases refers
      exact (Option.some.inj owns).symm
    · cases refers
  · split at refers
    · cases refers
      exact (Option.some.inj owns).symm
    · cases refers
  · cases refers
    cases owns
  · cases refers

variable {options : Options}

/-- A reference to a function that nothing defines becomes the index of an import. -/
theorem exists_functionOperand (decided : ofInputs inputs options = .ok program)
    (kind : relocation.kind = .functionIndexLeb)
    (leads : program.LeadsTo owner relocation.index (.symbol id))
    (stands : program.symbols.get id = .ok symbol) (undefined : symbol.isUndefined = true)
    (h : program.operandValue owner relocation current = .ok value) :
    ∃ index, program.FunctionOperand inputs owner relocation id index := by
  obtain ⟨session, -, parts⟩ := decided_of_ofInputs decided
  obtain ⟨index, here⟩ := functionIndex_of_operandValue kind leads h
  refine ⟨index, ?_⟩
  have found := existing_eq_ok.1 stands
  cases functionAt_of_functionIndex here with
  | defined stands' target =>
    cases stands.symm.trans stands'
    rw [Symbol.isUndefined, target] at undefined
    cases undefined
  | supplied stands' target =>
    cases stands.symm.trans stands'
    rw [Symbol.isUndefined, target] at undefined
    cases undefined
  | @imported _ other position module named _ stands' target _ input imports at_index =>
    cases stands.symm.trans stands'
    obtain ⟨lead, first, refers⟩ :=
      (ledBy_of_ofInputs decided).first id symbol found undefined
    rw [target] at refers
    obtain rfl := owner_of_reference? refers rfl
    obtain ⟨place, own, firstNamed, listed⟩ := exists_firstNamed_function parts.imports at_index
    refine ⟨fun current => ?_, lead, position, named, place, own, first, refers,
      bind_eq_ok.2 ⟨module, input, imports⟩, firstNamed, listed⟩
    have calls : program.Calls owner relocation id := ⟨kind, leads⟩
    rw [calls.operandValue ⟨symbol, found, by rw [target]; rfl⟩, here]
    rfl

/-- A reference to a global that nothing defines becomes the index of an import. -/
theorem exists_globalOperand (decided : ofInputs inputs options = .ok program)
    (kind : relocation.kind = .globalIndexLeb ∨ relocation.kind = .globalIndexI32)
    (leads : program.LeadsTo owner relocation.index (.symbol id))
    (stands : program.symbols.get id = .ok symbol) (undefined : symbol.isUndefined = true)
    (h : program.operandValue owner relocation current = .ok value) :
    ∃ index, program.GlobalOperand inputs owner relocation id index := by
  obtain ⟨session, -, parts⟩ := decided_of_ofInputs decided
  obtain ⟨index, here⟩ := globalIndex_of_operandValue kind leads h
  refine ⟨index, ?_⟩
  have found := existing_eq_ok.1 stands
  obtain ⟨_, stands', looked⟩ := bind_eq_ok.1 here
  cases stands.symm.trans stands'
  split at looked
  · next target =>
    rw [Symbol.isUndefined, target] at undefined
    cases undefined
  · next other position target =>
    obtain ⟨module, input, looked⟩ := bind_eq_ok.1 looked
    obtain ⟨named, imports, looked⟩ := bind_eq_ok.1 looked
    have at_index : program.imports.globalIndex? named.importName = some index := by
      have some := required_eq_ok looked
      split at some
      · cases some
      · exact some
    obtain ⟨lead, first, refers⟩ :=
      (ledBy_of_ofInputs decided).first id symbol found undefined
    rw [target] at refers
    obtain rfl := owner_of_reference? refers rfl
    obtain ⟨place, own, firstNamed, listed⟩ := exists_firstNamed_global parts.imports at_index
    exact ⟨fun current => operandValue_of_globalIndex kind leads
        ⟨symbol, found, by rw [target]; rfl⟩ here, lead, position, named, place, own, first,
      refers, bind_eq_ok.2 ⟨module, input, imports⟩, firstNamed, listed⟩
  · next target =>
    rw [Symbol.isUndefined, target] at undefined
    cases undefined
  · cases looked

/-- Where operands do not overlap, what an operand becomes is in the copied bytes. -/
theorem decode_of_relocate {result : Bytes} (apart : found.OperandsApart range)
    (h : program.relocate owner found range = .ok result)
    (member : relocation ∈ found.operands range)
    (becomes : ∀ current, program.operandValue owner relocation current = .ok value) :
    relocation.kind.encoding.decode
      (result.window (found.start range.start relocation) relocation.kind.encoding.width) =
        .ok (relocation.kind.encoding.reduce value) := by
  obtain ⟨module, original, -, -, relocated⟩ := (relocate_eq_ok_iff apart).1 h
  obtain ⟨-, current, other, -, computed, new⟩ := relocated.operand relocation member
  cases (becomes current).symm.trans computed
  rw [new, Relocation.Encoding.decode_encode]

end Program

/-- In a linked module every reference to a function or a global that nothing defines has become
the index of an import: the one that the first entry for its symbol names, in the order of the
inputs, with the type that the first symbol for this import gives it. -/
theorem link_references {inputs : List (String × Bytes)} {options : Options} {output : Bytes}
    (linked : link inputs options = .ok output) :
    ∃ program, Program.ofInputs inputs options = .ok program ∧
      ∀ owner found range, program.Copies owner found range →
      ∃ result, program.relocate owner found range = .ok result ∧ result <:+: output ∧
      ∀ relocation ∈ found.operands range, ∀ id symbol,
        program.LeadsTo owner relocation.index (.symbol id) →
        program.symbols.get id = .ok symbol → symbol.isUndefined = true →
        (relocation.kind = .functionIndexLeb →
          ∃ index, program.FunctionOperand inputs owner relocation id index ∧
            (found.OperandsApart range → relocation.kind.encoding.decode
              (result.window (found.start range.start relocation) relocation.kind.encoding.width) =
                .ok (relocation.kind.encoding.reduce index))) ∧
        (relocation.kind = .globalIndexLeb ∨ relocation.kind = .globalIndexI32 →
          ∃ index, program.GlobalOperand inputs owner relocation id index ∧
            (found.OperandsApart range → relocation.kind.encoding.decode
              (result.window (found.start range.start relocation) relocation.kind.encoding.width) =
                .ok (relocation.kind.encoding.reduce index))) := by
  obtain ⟨program, decided, contents⟩ := exists_program_of_link linked
  obtain ⟨session, -, parts⟩ := Program.decided_of_ofInputs decided
  refine ⟨program, decided, fun owner found range copies => ?_⟩
  obtain ⟨result, relocated, within⟩ :=
    Program.exists_relocate_of_copies contents parts.layout copies
  refine ⟨result, relocated, within, ?_⟩
  intro relocation member id symbol leads stands undefined
  obtain ⟨current, value, computed⟩ := Program.exists_operandValue_of_relocate relocated member
  refine ⟨fun kind => ?_, fun kind => ?_⟩
  · obtain ⟨index, operand⟩ :=
      Program.exists_functionOperand decided kind leads stands undefined computed
    exact ⟨index, operand, fun apart =>
      Program.decode_of_relocate apart relocated member operand.value⟩
  · obtain ⟨index, operand⟩ :=
      Program.exists_globalOperand decided kind leads stands undefined computed
    exact ⟨index, operand, fun apart =>
      Program.decode_of_relocate apart relocated member operand.value⟩

/-- Three inputs that call imported functions. The first two mean different functions by one name.
The last one means the same function as the first, by another name and with another type. -/
def strangers : List (String × Bytes) :=
  [("a.o",
      [0, 97, 115, 109, 1, 0, 0, 0, 1, 4, 1, 96, 0, 0, 2, 7, 1, 1, 109, 1, 102, 0, 0, 3, 2, 1, 0, 10,
        10, 1, 8, 0, 16, 128, 128, 128, 128, 0, 11, 0, 20, 7, 108, 105, 110, 107, 105, 110, 103, 2, 8,
        9, 2, 0, 16, 0, 0, 0, 1, 1, 97, 0, 16, 10, 114, 101, 108, 111, 99, 46, 67, 79, 68, 69, 3, 1,
        0, 4, 0]),
    ("b.o",
      [0, 97, 115, 109, 1, 0, 0, 0, 1, 4, 1, 96, 0, 0, 2, 7, 1, 1, 110, 1, 102, 0, 0, 3, 2, 1, 0, 10,
        10, 1, 8, 0, 16, 128, 128, 128, 128, 0, 11, 0, 20, 7, 108, 105, 110, 107, 105, 110, 103, 2, 8,
        9, 2, 0, 16, 0, 0, 0, 1, 1, 98, 0, 16, 10, 114, 101, 108, 111, 99, 46, 67, 79, 68, 69, 3, 1,
        0, 4, 0]),
    ("c.o",
      [0, 97, 115, 109, 1, 0, 0, 0, 1, 5, 1, 96, 1, 127, 0, 2, 7, 1, 1, 109, 1, 102, 0, 0, 3, 2, 1,
        0, 10, 12, 1, 10, 0, 65, 0, 16, 128, 128, 128, 128, 0, 11, 0, 22, 7, 108, 105, 110, 107, 105,
        110, 103, 2, 8, 11, 2, 0, 80, 0, 1, 103, 0, 0, 1, 1, 99, 0, 16, 10, 114, 101, 108, 111, 99, 46,
        67, 79, 68, 69, 3, 1, 0, 6, 0])]

/-- The calls of the first two inputs, and that of the last one. -/
def call : Relocation := ⟨.functionIndexLeb, 4, 0, 0⟩

def lastCall : Relocation := ⟨.functionIndexLeb, 6, 0, 0⟩

/-- A call of an input to the first function that it imports. -/
structure CallSite where
  /-- The operands in the code. -/
  operands : Option (List Relocation)
  /-- Where the symbol table leads. -/
  slots : Array Slot
  /-- Whether nothing defines the symbol. -/
  undefined : Bool
  /-- The import, with the number that its type has in the linked module. -/
  name : ImportName
  type : Nat
  /-- What the operand of the call becomes. -/
  becomes : Int
deriving DecidableEq

/-- The call of input `owner`, by symbol `id`. -/
def callOf (owner : ModuleId) (relocation : Relocation) (id : SymbolId) (program : Program) :
    Except Error CallSite := do
  let module ← program.input owner
  let symbol ← program.symbols.get id
  let found ← program.functionImportAt (owner, 0)
  return {
    operands := (module.section? .code).map fun found => found.operands found.header.payload
    slots := module.slots
    undefined := symbol.isUndefined
    name := found.importName
    type := program.typeBase owner + found.typeIndex.toNat
    becomes := ← program.operandValue owner relocation 0 }

/-- The call of the first input reaches its own import. -/
theorem link_stranger :
    ∃ program index, Program.ofInputs strangers {} = .ok program ∧
      program.FunctionOperand strangers 0 call 0 index := by
  have accepted : (link strangers {}).isOk = true := by decide +kernel
  have site : Program.ofInputs strangers {} >>= callOf 0 call 0 =
      .ok ⟨some [call], #[.symbol 0, .symbol 1], true, ⟨"m", "f"⟩, 0, 0⟩ := by decide +kernel
  have codes : (Program.ofInputs strangers {}).map (·.codeCount) = .ok 3 := by decide +kernel
  rcases linked : link strangers {} with error | output
  · rw [linked] at accepted
    cases accepted
  · obtain ⟨program, decided, becomes⟩ := link_references linked
    rw [decided] at site codes
    obtain ⟨_, same, site⟩ := bind_eq_ok.1 site
    cases same
    obtain ⟨module, input, site⟩ := bind_eq_ok.1 site
    obtain ⟨symbol, stands, site⟩ := bind_eq_ok.1 site
    obtain ⟨own, -, site⟩ := bind_eq_ok.1 site
    obtain ⟨value, -, site⟩ := return_eq_ok.1 site
    obtain ⟨code, slots, undefined, -⟩ := CallSite.mk.inj site
    obtain ⟨found, first, operands⟩ := Option.map_eq_some_iff.1 code
    have any : UInt32.ofNat program.codeCount ≠ 0 := by
      have count : program.codeCount = 3 := Except.ok.inj codes
      rw [count]
      decide
    obtain ⟨result, -, -, each⟩ := becomes 0 found found.header.payload (.code input first any)
    have member : call ∈ found.operands found.header.payload := by
      rw [operands]
      exact List.mem_singleton.2 rfl
    have leads : program.LeadsTo 0 call.index (.symbol 0) := ⟨module, input, by rw [slots]; rfl⟩
    obtain ⟨index, operand, -⟩ := (each call member 0 symbol leads stands undefined).1 rfl
    exact ⟨program, index, decided, operand⟩

/-- The call of the second input reaches the import of the first one, and that of the last input is
to a function of another type. -/
theorem link_strangers :
    ∃ program output, Program.ofInputs strangers {} = .ok program ∧
      link strangers {} = .ok output ∧ program.imports.functions = [(⟨"m", "f"⟩, 0)] ∧
      callOf 1 call 0 program =
        .ok ⟨some [call], #[.symbol 0, .symbol 2], true, ⟨"n", "f"⟩, 1, 0⟩ ∧
      callOf 2 lastCall 3 program =
        .ok ⟨some [lastCall], #[.symbol 3, .symbol 4], true, ⟨"m", "f"⟩, 2, 0⟩ := by
  have accepted : (link strangers {}).isOk = true := by decide +kernel
  have imports : (Program.ofInputs strangers {}).map (·.imports.functions) =
      .ok [(⟨"m", "f"⟩, 0)] := by decide +kernel
  have second : Program.ofInputs strangers {} >>= callOf 1 call 0 =
      .ok ⟨some [call], #[.symbol 0, .symbol 2], true, ⟨"n", "f"⟩, 1, 0⟩ := by decide +kernel
  have third : Program.ofInputs strangers {} >>= callOf 2 lastCall 3 =
      .ok ⟨some [lastCall], #[.symbol 3, .symbol 4], true, ⟨"m", "f"⟩, 2, 0⟩ := by decide +kernel
  rcases linked : link strangers {} with error | output
  · rw [linked] at accepted
    cases accepted
  · obtain ⟨program, decided, -⟩ := exists_program_of_link linked
    rw [decided] at imports second third
    exact ⟨program, output, decided, rfl, Except.ok.inj imports, second, third⟩

end StaticLink
