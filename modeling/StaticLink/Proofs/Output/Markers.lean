import StaticLink.Proofs.Inputs.StrongNames
import StaticLink.Proofs.Inputs.WeakNames
import StaticLink.Proofs.Layout.Addresses
import StaticLink.Proofs.Output.Memory
import StaticLink.Proofs.Output.Operands
import StaticLink.Proofs.Output.Stubs

/-!
# Where an output segment starts and stops

For each output segment the linker supplies two data symbols, named after it: where it starts and
where it stops. Inputs may refer to them and may define them weakly. Any other use is an error, but
for a strong definition that was taken for a weak one.

* `Program.Encloses`: an output segment has the data segments of its name between its two addresses,
  and no others.
* `Program.Marker`: a data symbol of the linker, and what references to it become.
* `MarksSegment`: the names of these symbols, by the data segments of the inputs.
* `link_markers`: every linked module has both symbols for every output segment, and inputs that
  use their names for anything else are not linked.
-/

namespace StaticLink

/-- A data segment of the modules goes to an output segment whose start or stop is called `name`. -/
def MarksSegment (modules : List ObjectModule) (name : String) : Prop :=
  ∃ owner position input, dataSegment? modules owner position = some input ∧
    (name = startMarkerName (DataSegment.outputName input.info.name) ∨
      name = stopMarkerName (DataSegment.outputName input.info.name))

namespace Program

/-- The output segment lies below the stack. The data segments with its name lie in it, and all
others outside. -/
structure Encloses (program : Program) (segment : OutputSegment) : Prop where
  order : segment.address ≤ segment.stop
  below : segment.stop + stackSize ≤ program.stackTop
  inside : ∀ owner position input, dataSegment? program.modules owner position = some input →
    DataSegment.outputName input.info.name = segment.name →
    ∃ address, program.layout.address? owner position = some address ∧
      segment.address ≤ address ∧ address + input.size ≤ segment.stop
  outside : ∀ owner position input, dataSegment? program.modules owner position = some input →
    DataSegment.outputName input.info.name ≠ segment.name →
    ∃ address, program.layout.address? owner position = some address ∧
      (address + input.size ≤ segment.address ∨ segment.stop ≤ address)

/-- Symbol `id` stands for `name`. It is a data symbol of the linker, with this address. -/
structure Marker (inputs : List (String × Bytes)) (program : Program) (output : Bytes)
    (name : String) (address : Nat) (id : SymbolId) : Prop where
  known : program.symbols.lookup name = some id
  stands : program.symbols.get id = .ok (Supply.address name address).symbol
  /-- The symbol has the address itself, in 32 bits. -/
  exact : (UInt32.ofNat address).toNat = address
  here : program.dataAddress id = .ok address
  /-- A relocation of an input by an entry that goes by this name, whatever else the entry says. -/
  operands : ∀ (owner : ModuleId) (called : String) (bytes : Bytes) (module : ObjectModule)
    (entry : SymbolEntry) (relocation : Relocation),
    inputs[owner]? = some (called, bytes) → program.modules[owner]? = some module →
    (symbolEntries bytes)[relocation.index.toNat]? = some entry → entry.isLocal = false →
    module.entryName? entry = some name → relocation.kind.isMemoryAddress = true →
    program.OperandBecomes output owner relocation (address + relocation.addend.toInt)

variable {inputs : List (String × Bytes)} {options : Options} {program : Program}
  {segment other : OutputSegment} {name : String} {address : Nat} {output : Bytes}

/-! ## Output segments -/

theorem exact_of_ofInputs (decided : ofInputs inputs options = .ok program) :
    program.layout.Exact program.modules options.globalBase.toNat := by
  obtain ⟨session, -, decides⟩ := decided_of_ofInputs decided
  have laidOut := laidOut_of_ofInputs decided
  refine ((DataLayout.ofModules_exact (fun module member => (laidOut module member).alignments)
    (fun module member => ?_) options.globalBase).2 _ decides.layout).2
  have checked := DataLayout.checked_of_ofModules decides.layout member
  unfold ObjectModule.checkDataRelocations at checked
  split at checked
  · cases checked
  · next none => exact none

/-- Output segments have different names. -/
theorem nodup_segmentNames (decided : ofInputs inputs options = .ok program) :
    (program.layout.segments.map (·.name)).Nodup := by
  refine List.pairwise_map.2 ((exact_of_ofInputs decided).names.imp ?_)
  intro first second below same
  rw [same] at below
  exact List.lt_irrefl _ below

theorem apart_of_dataInside {base : Nat} (inside : program.DataInside base)
    (member : segment ∈ program.layout.segments) (member' : other ∈ program.layout.segments)
    (different : other.name ≠ segment.name) :
    other.stop ≤ segment.address ∨ segment.stop ≤ other.address := by
  let apart (first second : OutputSegment) : Prop :=
    first.stop ≤ second.address ∨ second.stop ≤ first.address
  have symmetric : Std.Symm apart := ⟨fun _ _ => Or.symm⟩
  have all : program.layout.segments.Pairwise apart := inside.apart.imp Or.inl
  exact all.forall member' member fun same => different (congrArg (·.name) same)

theorem encloses_of_ofInputs (decided : ofInputs inputs options = .ok program)
    (member : segment ∈ program.layout.segments) : program.Encloses segment := by
  obtain ⟨session, -, decides⟩ := decided_of_ofInputs decided
  have placed := DataLayout.placed_of_ofModules decides.layout
  have inside := dataInside_of_placed placed decides.stackTop
  -- A data segment lies in the output segment of its name.
  have lies (owner : ModuleId) (position : Nat) (input : DataSegment)
      (here : dataSegment? program.modules owner position = some input) :
      ∃ other ∈ program.layout.segments, ∃ address,
        other.name = DataSegment.outputName input.info.name ∧
        program.layout.address? owner position = some address ∧
        other.address ≤ address ∧ address + input.size ≤ other.stop := by
    obtain ⟨other, member, chunk, among, rfl, rfl, name, found, -⟩ :=
      (exact_of_ofInputs decided).address owner position input here
    obtain ⟨_, same, -, fits⟩ :=
      (placed.laid other member).stacked.inside (Array.mem_toList_iff.2 among)
    cases here.symm.trans same
    refine ⟨other, member, _, name, found, Nat.le_add_right _ _, ?_⟩
    unfold OutputSegment.stop
    omega
  refine ⟨Nat.le_add_right _ _, (inside.inside segment member).2, ?_, ?_⟩
  · intro owner position input here named
    obtain ⟨other, member', address, name, found, start, stop⟩ := lies owner position input here
    obtain rfl : other = segment :=
      List.inj_on_of_nodup_map (nodup_segmentNames decided) member' member (name.trans named)
    exact ⟨address, found, start, stop⟩
  · intro owner position input here named
    obtain ⟨other, member', address, name, found, start, stop⟩ := lies owner position input here
    have apart := apart_of_dataInside inside member member' (by rw [name]; exact named)
    exact ⟨address, found, by omega⟩

/-! ## Symbols -/

/-- A data symbol of the linker stands for its name, of which the inputs have no more than data and
weak definitions. -/
theorem record?_of_linkerData {session : Session} {item : Supply}
    (decided : ofInputs inputs options = .ok program)
    (added : Session.addAll inputs .empty = .ok () session)
    (supplied : item ∈ SymbolTable.linkerData program.layout.segments) :
    program.symbols.record? item.name = some item.symbol ∧
      ∀ before, session.symbols.record? item.name = some before →
        before.target.kind = .data ∧ before.isStrongDefinition = false := by
  obtain ⟨again, added', decides⟩ := decided_of_ofInputs decided
  cases added.symm.trans added'
  exact SymbolTable.record?_address_of_complete (Session.addAll_intact added).wellFormed
    (fun _ => Session.given_of_record? added) (nodup_segmentNames decided) decides.symbols supplied rfl

theorem marker_of_linkerData (decided : ofInputs inputs options = .ok program)
    (contents : program.Contents output)
    (supplied : .address name address ∈ SymbolTable.linkerData program.layout.segments)
    (small : address < wordLimit) : ∃ id, program.Marker inputs output name address id := by
  obtain ⟨session, added, decides⟩ := decided_of_ofInputs decided
  obtain ⟨id, known, found⟩ :=
    Option.bind_eq_some_iff.1 (record?_of_linkerData decided added supplied).1
  have stands : program.symbols.get id = .ok (Supply.address name address).symbol :=
    existing_eq_ok.2 found
  have exact : (UInt32.ofNat address).toNat = address := UInt32.toNat_ofNat_of_lt' small
  have here : program.dataAddress id = .ok address := by
    refine bind_eq_ok.2 ⟨_, stands, ?_⟩
    show Except.ok (UInt32.ofNat address).toNat = _
    rw [exact]
  refine ⟨id, known, stands, exact, here, ?_⟩
  intro owner called bytes module entry relocation file input listed visible named kind
  have holds := (decides.slotted added).holds owner called bytes module file input
  obtain ⟨slot, there, one⟩ := exists_of_forall₂ holds listed
  rw [Array.getElem?_toList] at there
  obtain ⟨id', known', rfl⟩ := one.slot_of_name? visible named
  cases known.symm.trans known'
  have leads : program.LeadsTo owner relocation.index (.symbol id) :=
    ⟨module, existing_eq_ok.2 input, there⟩
  refine operandBecomes_of_operandValue contents decides.layout fun current value computed => ?_
  obtain ⟨found, same, rfl⟩ := exists_dataAddress_of_operandValue kind leads computed
  cases here.symm.trans same
  rfl

/-- The name of a start or a stop is that of a data symbol of the linker. -/
theorem exists_supply_of_marksSegment (decided : ofInputs inputs options = .ok program)
    (marks : MarksSegment program.modules name) :
    ∃ item ∈ SymbolTable.linkerData program.layout.segments, item.name = name := by
  obtain ⟨owner, position, input, here, marker⟩ := marks
  obtain ⟨segment, member, -, -, -, -, named, -⟩ :=
    (exact_of_ofInputs decided).address owner position input here
  rw [← named] at marker
  rcases marker with rfl | rfl
  · exact ⟨_, SymbolTable.mem_linkerData.2 (.inl ⟨segment, member, .inl rfl⟩), rfl⟩
  · exact ⟨_, SymbolTable.mem_linkerData.2 (.inl ⟨segment, member, .inr rfl⟩), rfl⟩

end Program

/-! ## Links -/

variable {inputs : List (String × Bytes)} {options : Options} {output : Bytes} {name : String}

/-- What the inputs of a linked module say of the name of a start or a stop. -/
theorem sharedLeads_of_marksSegment {session : Session} {lead : Lead}
    (linked : link inputs options = .ok output)
    (added : Session.addAll inputs .empty = .ok () session)
    (marks : MarksSegment session.modules name)
    (member : lead ∈ sharedLeads inputs session.modules name) :
    lead.entry.targetKind? = some .data ∧
      (lead.entry.isStrongDefinition = true →
        TakenForWeak (sharedLeads inputs session.modules name)) := by
  obtain ⟨program, interface, decided, -, -⟩ := exists_written_of_link linked
  obtain ⟨again, added', decides⟩ := Program.decided_of_ofInputs decided
  cases added.symm.trans added'
  rw [decides.modules] at marks
  obtain ⟨item, supplied, rfl⟩ := Program.exists_supply_of_marksSegment decided marks
  exact Session.sharedLeads_of_weaker added (Program.record?_of_linkerData decided added supplied).2
    member

/-- Every output segment of a linked module lies below the stack, with the data segments of its name
between its start and its stop and all others outside. Two symbols of the linker stand for the start
and the stop, and every relocation for an address becomes that of the symbol whose name its entry
goes by, plus its addend.

Where an input uses the name of a start or a stop for a function or a global, linking fails. So it
does where an input defines such a name strongly, unless all its strong definitions are taken for a
weak one that came first. -/
theorem link_markers (inputs : List (String × Bytes)) (options : Options) :
    (∀ output, link inputs options = .ok output →
      ∃ program interface contents, Program.ofInputs inputs options = .ok program ∧
        program.Written interface contents output ∧
        ∀ segment ∈ program.layout.segments, program.Encloses segment ∧
          (∃ id, program.Marker inputs output (startMarkerName segment.name) segment.address id) ∧
          ∃ id, program.Marker inputs output (stopMarkerName segment.name) segment.stop id) ∧
    ∀ session name lead, Session.addAll inputs .empty = .ok () session →
      MarksSegment session.modules name → lead ∈ sharedLeads inputs session.modules name →
      (lead.entry.targetKind? ≠ some .data ∨ lead.entry.isStrongDefinition = true ∧
        ¬ TakenForWeak (sharedLeads inputs session.modules name)) →
      ∃ error, link inputs options = .error error := by
  constructor
  · intro output linked
    obtain ⟨program, interface, decided, -, written⟩ := exists_written_of_link linked
    refine ⟨program, interface, _, decided, written, fun segment member => ?_⟩
    obtain ⟨session, -, decides⟩ := Program.decided_of_ofInputs decided
    have placed := DataLayout.placed_of_ofModules decides.layout
    obtain ⟨-, -, small⟩ := placed.packed.inside member
    have order : segment.address ≤ segment.stop := Nat.le_add_right _ _
    refine ⟨Program.encloses_of_ofInputs decided member, ?_, ?_⟩
    · refine Program.marker_of_linkerData decided written.contents ?_ (Nat.lt_of_le_of_lt order small)
      exact SymbolTable.mem_linkerData.2 (.inl ⟨segment, member, .inl rfl⟩)
    · refine Program.marker_of_linkerData decided written.contents ?_ small
      exact SymbolTable.mem_linkerData.2 (.inl ⟨segment, member, .inr rfl⟩)
  · intro session name lead added marks member misuse
    rcases linked : link inputs options with error | output
    · exact ⟨error, rfl⟩
    · obtain ⟨kind, strong⟩ := sharedLeads_of_marksSegment linked added marks member
      rcases misuse with other | ⟨defines, apart⟩
      · exact absurd kind other
      · exact absurd (strong defines) apart

/-- The file of an input with two pointers in its data: to the start of its output segment, which it
refers to weakly, and to the stop, which it defines weakly as something else. -/
def markingFile : Bytes :=
  [0, 97, 115, 109, 1, 0, 0, 0, 11, 14, 1, 0, 65, 0, 11, 8, 0, 0, 0, 0, 0, 0, 0, 0, 0, 59, 7, 108, 105,
    110, 107, 105, 110, 103, 2, 8, 35, 2, 1, 17, 13, 95, 95, 115, 116, 97, 114, 116, 95, 46, 100, 97,
    116, 97, 1, 1, 12, 95, 95, 115, 116, 111, 112, 95, 46, 100, 97, 116, 97, 0, 0, 4, 5, 11, 1, 7, 46,
    100, 97, 116, 97, 46, 120, 2, 0, 0, 21, 10, 114, 101, 108, 111, 99, 46, 68, 65, 84, 65, 0, 2, 5, 6,
    0, 4, 5, 10, 1, 0]

def marking : List (String × Bytes) := [("marks.o", markingFile)]

/-- An input that defines the start of its output segment, first strongly and then weakly. -/
def clashing : List (String × Bytes) :=
  [("a.o",
      [0, 97, 115, 109, 1, 0, 0, 0, 11, 10, 1, 0, 65, 0, 11, 4, 1, 2, 3, 4, 0, 61, 7, 108, 105, 110,
        107, 105, 110, 103, 2, 8, 39, 2, 1, 0, 13, 95, 95, 115, 116, 97, 114, 116, 95, 46, 100, 97,
        116, 97, 0, 0, 4, 1, 1, 13, 95, 95, 115, 116, 97, 114, 116, 95, 46, 100, 97, 116, 97, 0, 0, 4,
        5, 9, 1, 5, 46, 100, 97, 116, 97, 0, 0])]

/-- The pointers become the addresses of the linker. Where the first definition is a strong one, linking
fails. -/
theorem link_marking_addresses :
    (∃ (program : Program) (output : Bytes) (start stop : SymbolId),
      Program.ofInputs marking {} = .ok program ∧ link marking {} = .ok output ∧
      program.Marker marking output "__start_.data" 1024 start ∧
      program.Marker marking output "__stop_.data" 1032 stop ∧
      program.OperandBecomes output 0 ⟨.memoryAddrI32, 6, 0, 4⟩ 1028 ∧
      program.OperandBecomes output 0 ⟨.memoryAddrI32, 10, 1, 0⟩ 1032) ∧
    ∃ error, link clashing {} = .error error := by
  constructor
  · have succeeds : (link marking {}).isOk = true := by decide +kernel
    have entries : symbolEntries markingFile = [.data ⟨17⟩ "__start_.data" none,
        .data ⟨1⟩ "__stop_.data" (some ⟨0, 0, 4⟩)] := by decide +kernel
    have facts : ((Program.ofInputs marking {}).map fun program =>
        (program.layout.segments.map fun segment => (segment.name, segment.address, segment.stop),
          program.modules.length)) = .ok ([(".data", 1024, 1032)], 1) := by decide +kernel
    obtain ⟨output, linked⟩ := exists_of_isOk succeeds
    obtain ⟨program, interface, contents, decided, -, each⟩ := (link_markers marking {}).1 output linked
    rw [decided] at facts
    obtain ⟨segments, count⟩ := Prod.mk.inj (Except.ok.inj facts)
    obtain ⟨module, modules⟩ := List.length_eq_one_iff.1 count
    have input : program.modules[0]? = some module := by rw [modules]; rfl
    obtain ⟨segment, one, same⟩ := List.map_eq_singleton_iff.1 segments
    obtain ⟨name, both⟩ := Prod.mk.inj same
    obtain ⟨address, stops⟩ := Prod.mk.inj both
    have member : segment ∈ program.layout.segments := by rw [one]; exact List.mem_singleton_self _
    obtain ⟨-, ⟨start, first⟩, stop, last⟩ := each segment member
    rw [name, address] at first
    rw [name, stops] at last
    refine ⟨program, output, start, stop, decided, linked, first, last, ?_, ?_⟩
    · exact first.operands 0 "marks.o" markingFile module (.data ⟨17⟩ "__start_.data" none) _ rfl input
        (by rw [entries]; rfl) rfl rfl rfl
    · exact last.operands 0 "marks.o" markingFile module (.data ⟨1⟩ "__stop_.data" (some ⟨0, 0, 4⟩)) _
        rfl input (by rw [entries]; rfl) rfl rfl rfl
  · have facts : (do
        Session.addAll clashing
        let session ← get
        return ((dataSegment? session.modules 0 0).map (·.info.name),
          ((sharedLeads clashing session.modules "__start_.data").head?).map
            (·.entry.isStrongDefinition),
          decide (TakenForWeak (sharedLeads clashing session.modules "__start_.data"))) :
          EStateM Error Session _).run' .empty =
        some (some ".data", some true, false) := by decide +kernel
    obtain ⟨session, added, facts⟩ := exists_after_of_run' facts
    obtain ⟨data, facts⟩ := Prod.mk.inj facts
    obtain ⟨strong, apart⟩ := Prod.mk.inj facts
    obtain ⟨input, here, named⟩ := Option.map_eq_some_iff.1 data
    obtain ⟨lead, first, strong⟩ := Option.map_eq_some_iff.1 strong
    have marks : MarksSegment session.modules "__start_.data" :=
      ⟨0, 0, input, here, .inl (by rw [named]; decide +kernel)⟩
    exact (link_markers clashing {}).2 session "__start_.data" lead added marks
      (List.mem_of_head? first) (.inr ⟨strong, of_decide_eq_false apart⟩)

/-- An input that defines the start of its output segment, first weakly and then strongly, as the same
bytes. -/
def eclipsed : List (String × Bytes) :=
  [("a.o",
      [0, 97, 115, 109, 1, 0, 0, 0, 11, 10, 1, 0, 65, 0, 11, 4, 1, 2, 3, 4, 0, 61, 7, 108, 105, 110,
        107, 105, 110, 103, 2, 8, 39, 2, 1, 1, 13, 95, 95, 115, 116, 97, 114, 116, 95, 46, 100, 97,
        116, 97, 0, 0, 4, 1, 0, 13, 95, 95, 115, 116, 97, 114, 116, 95, 46, 100, 97, 116, 97, 0, 0, 4,
        5, 9, 1, 5, 46, 100, 97, 116, 97, 0, 0])]

/-- The strong definition is lost without an error, and the name stands for the address of the
linker. -/
theorem link_eclipsed :
    ∃ (program : Program) (output : Bytes) (lead : Lead), link eclipsed {} = .ok output ∧
      Program.ofInputs eclipsed {} = .ok program ∧
      MarksSegment program.modules "__start_.data" ∧
      lead ∈ sharedLeads eclipsed program.modules "__start_.data" ∧
      lead.entry.isStrongDefinition = true ∧ program.symbols.lookup "__start_.data" = some 0 ∧
      (program.symbols.records[0]?).map (·.target) = some (.data (.synthesized 1024)) := by
  have succeeds : (link eclipsed {}).isOk = true := by decide +kernel
  have facts : ((Program.ofInputs eclipsed {}).map fun program =>
      ((dataSegment? program.modules 0 0).map (·.info.name),
        ((sharedLeads eclipsed program.modules "__start_.data").getLast?).map
          (·.entry.isStrongDefinition),
        program.symbols.lookup "__start_.data",
        (program.symbols.records[0]?).map (·.target))) =
      .ok (some ".data", some true, some 0, some (.data (.synthesized 1024))) := by decide +kernel
  obtain ⟨output, linked⟩ := exists_of_isOk succeeds
  obtain ⟨program, -, decided, -, -⟩ := exists_written_of_link linked
  rw [decided] at facts
  obtain ⟨data, facts⟩ := Prod.mk.inj (Except.ok.inj facts)
  obtain ⟨strong, facts⟩ := Prod.mk.inj facts
  obtain ⟨known, target⟩ := Prod.mk.inj facts
  obtain ⟨input, here, named⟩ := Option.map_eq_some_iff.1 data
  obtain ⟨lead, last, strong⟩ := Option.map_eq_some_iff.1 strong
  have marks : MarksSegment program.modules "__start_.data" :=
    ⟨0, 0, input, here, .inl (by rw [named]; decide +kernel)⟩
  exact ⟨program, output, lead, linked, decided, marks, List.mem_of_getLast? last, strong, known,
    target⟩

end StaticLink
