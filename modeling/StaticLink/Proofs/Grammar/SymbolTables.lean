import StaticLink.Proofs.Grammar.Modules
import StaticLink.Proofs.Inputs.Session

/-!
# The symbol tables in a file

The entries that are read from a file are those of its symbol tables, one table after the other. A
file with one table has the entries of this table, at the same positions.

* `Grammar.Module.symbolTables`: the symbol tables in the syntax tree of a file.
* `Grammar.Module.symbolEntries_bytes`: what is read from the file.
-/

namespace StaticLink.Grammar

/-- The entries of a subsection, if it is a symbol table. -/
def LinkingContents.symbolTable? : LinkingContents → Option (List SymbolEntry)
  | symbolTable entries => some (entries.items.map fun entry => entry.meaning.value)
  | _ => none

/-- The symbol tables in the contents of a section. -/
def Contents.symbolTables : Contents → List (List SymbolEntry)
  | custom _ (.linking _ _ subsections) _ =>
    subsections.filterMap fun subsection => subsection.contents.symbolTable?
  | _ => []

/-- The symbol tables of a file. -/
def Module.symbolTables (module : Module) : List (List SymbolEntry) :=
  module.sections.flatMap fun node => node.contents.symbolTables

/-! ## Events -/

/-- The events are not about symbols. -/
def Mute (events : List Event) : Prop := ∀ event ∈ events, ∀ index entry, event ≠ .symbol index entry

theorem entriesOf_append (one two : List Event) :
    entriesOf (one ++ two) = entriesOf one ++ entriesOf two := List.filterMap_append

theorem Mute.entriesOf_eq {events : List Event} (mute : Mute events) : entriesOf events = [] := by
  refine List.filterMap_eq_nil_iff.2 fun event member => ?_
  cases event with
  | symbol index entry => exact absurd rfl (mute _ member index entry)
  | _ => rfl

/-- The entries among the events of nodes that stand in a row. -/
theorem entriesOf_rowEvents {ν : Type} {events : Nat → Place → ν → List Event}
    {entries : ν → List SymbolEntry} (each : ∀ number place node,
      entriesOf (events number place node) = entries node)
    (after : Place → ν → Place) (number : Nat) (place : Place) (nodes : List ν) :
    entriesOf (rowEvents events after number place nodes) = nodes.flatMap entries := by
  induction nodes generalizing number place with
  | nil => rfl
  | cons node later ih => rw [rowEvents, entriesOf_append, each, ih, List.flatMap_cons]

theorem mute_rowEvents {ν : Type} {event : Nat → Place → ν → Event}
    (each : ∀ number place node index entry, event number place node ≠ .symbol index entry)
    (after : Place → ν → Place) (number : Nat) (place : Place) (nodes : List ν) :
    Mute (rowEvents (fun i place node => [event i place node]) after number place nodes) := by
  induction nodes generalizing number place with
  | nil => exact fun event member => nomatch member
  | cons node later ih =>
    intro other member
    rcases List.mem_cons.1 member with rfl | member
    · exact each number place node
    · exact ih (number + 1) (after place node) other member

theorem mute_map {ν : Type} {event : ν → Event}
    (each : ∀ node index entry, event node ≠ .symbol index entry) (nodes : List ν) :
    Mute (nodes.map event) := by
  intro other member
  obtain ⟨node, -, rfl⟩ := List.mem_map.1 member
  exact each node

/-- Vector sections hold no symbols. -/
theorem Entries.mute_events (place : Place) (entries : Entries) : Mute (entries.events place) := by
  cases entries with
  | types | code => exact fun event member => nomatch member
  | imports items =>
    refine mute_rowEvents (fun _ place entry => ?_) _ 0 place items
    unfold Import.event
    cases entry.imported <;> simp
  | functions | tables | memories | globals | exports | elements | data =>
    exact mute_rowEvents (by intros; rintro ⟨⟩) _ 0 place _

/-- The events of a symbol table are those of its entries. -/
theorem LinkingContents.entriesOf_events (contents : LinkingContents) :
    entriesOf contents.events = contents.symbolTable?.toList.flatten := by
  cases contents with
  | segmentInfos entries => exact (mute_map (by rintro _ _ _ ⟨⟩) _).entriesOf_eq
  | initializers entries => exact (mute_map (by rintro _ _ _ ⟨⟩) _).entriesOf_eq
  | other => rfl
  | symbolTable entries =>
    show entriesOf (entries.items.zipIdx.map fun pair => pair.1.event pair.2) = _ ++ []
    rw [List.append_nil, entriesOf, List.filterMap_map]
    calc entries.items.zipIdx.filterMap (some ∘ fun pair => pair.1.meaning.value)
      _ = (entries.items.zipIdx.map Prod.fst).map fun entry => entry.meaning.value := by
        rw [List.filterMap_eq_map, List.map_map]
        rfl
      _ = entries.items.map fun entry => entry.meaning.value := by rw [List.zipIdx_map_fst]

theorem entriesOf_linking (subsections : List LinkingSubsection) :
    entriesOf (subsections.flatMap fun subsection => subsection.contents.events) =
      (subsections.filterMap fun subsection => subsection.contents.symbolTable?).flatten := by
  induction subsections with
  | nil => rfl
  | cons first rest ih =>
    rw [List.flatMap_cons, entriesOf_append, ih, LinkingContents.entriesOf_events,
      List.filterMap_cons]
    cases first.contents.symbolTable? <;> simp

theorem Contents.entriesOf_payloadEvents (place : Place) (contents : Contents) :
    entriesOf (contents.payloadEvents place) = contents.symbolTables.flatten := by
  cases contents with
  | start => rfl
  | dataCount => rfl
  | vector count entries => exact (entries.mute_events place).entriesOf_eq
  | custom name contents =>
    cases contents with
    | ignored => rfl
    | relocations => exact (mute_map (by rintro _ _ _ ⟨⟩) _).entriesOf_eq
    | linking version known subsections => exact entriesOf_linking subsections
    | names subsections =>
      refine Mute.entriesOf_eq fun event member => ?_
      obtain ⟨subsection, -, member⟩ := List.mem_flatMap.1 member
      unfold NameContents.events at member
      split at member
      · exact mute_map (by rintro _ _ _ ⟨⟩) _ event member
      · cases member

/-- What is read from a file are the entries of its symbol tables. -/
theorem Module.symbolEntries_bytes (module : Module) :
    symbolEntries module.bytes = module.symbolTables.flatten := by
  have section' (number : Nat) (place : Place) (node : Section) :
      entriesOf (node.events place) = node.contents.symbolTables.flatten := by
    rw [← Contents.entriesOf_payloadEvents]
    rfl
  rw [symbolEntries, Transcript.ofBytes_bytes]
  show entriesOf (rowEvents (fun _ => Section.events) Section.after 0 start module.sections) = _
  rw [entriesOf_rowEvents section', symbolTables, ← List.flatMap_id,
    List.flatMap_assoc]
  simp only [List.flatMap_id]

end StaticLink.Grammar
