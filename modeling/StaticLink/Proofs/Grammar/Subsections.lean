import StaticLink.Proofs.Grammar.Entries
import StaticLink.Proofs.Scan.Sections

/-!
# Custom sections and the syntax that they accept

* `Scanner.fills_subsections`: subsections, each of which is as long as it says, fill what is left
  of a section.
* `Scanner.fills_nameEntries`, `Scanner.fills_linkingEntries`: the contents of subsections.
* `Scanner.fills_customEntries`: what stands in a custom section behind its name.
-/

namespace StaticLink

namespace Scanner

open Reader
open Grammar (Place Subsection rowEvents)

variable {α β ν : Type} {bytes : ν → Bytes} {events : ν → List Event} {scan last : Scan}
  {ahead : Bytes} {stop : Nat}

/-! ## Lists whose events do not depend on their place -/

theorem rowEvents_eq_zipIdx (event : Nat → ν → Event) (after : Place → ν → Place) (first : Nat)
    (place : Place) (items : List ν) :
    rowEvents (fun i _ item => [event i item]) after first place items =
      (items.zipIdx first).map fun (item, i) => event i item := by
  induction items generalizing first place with
  | nil => rfl
  | cons item items ih =>
    rw [rowEvents, ih, List.zipIdx_cons, List.map_cons]
    rfl

theorem rowEvents_eq_map (event : ν → Event) (after : Place → ν → Place) (first : Nat)
    (place : Place) (items : List ν) :
    rowEvents (fun _ _ item => [event item]) after first place items = items.map event := by
  induction items generalizing first place with
  | nil => rfl
  | cons item items ih =>
    rw [rowEvents, ih, List.map_cons]
    rfl

/-- A count, then as many items, whose events may depend on their numbers. -/
theorem accepts_numbered (step : UInt32 → Scanner Unit) {event : Nat → ν → Event}
    (each : ∀ i, Accepts (step (.ofNat i)) bytes (fun _ item => [event i item])
      (Place.behind bytes)) :
    Accepts (do times (← Reader.varUInt32) step) (Grammar.Counted.bytes bytes)
      (fun _ list => list.items.zipIdx.map fun (item, i) => event i item)
      (Place.behind (Grammar.Counted.bytes bytes)) := by
  refine accepts_of_notes (fun place noted list => ?_) fun h => ?_
  · obtain ⟨count, items, counted⟩ := list
    refine (notes_read (accepts_word.complete count)).bind ?_
    rw [Scan.scan_past, ← rowEvents_eq_zipIdx event (Place.behind bytes) 0 (place.past _)]
    exact (Accepts.times_behind step each count.value).notes _ _ ⟨items, counted⟩
  · obtain ⟨count, rest, one, h⟩ := of_read_bind accepts_word h
    obtain ⟨⟨items, counted⟩, rest, two⟩ := (Accepts.times_behind step each count.value).sound h
    exact ⟨⟨count, items, counted⟩, rest,
      by rw [one, two, Grammar.Counted.bytes, List.append_assoc]⟩

/-- As `accepts_numbered`, where the events depend on nothing but the items. -/
theorem accepts_counted (step : UInt32 → Scanner Unit) {event : ν → Event}
    (each : ∀ i, Accepts (step i) bytes (fun _ item => [event item]) (Place.behind bytes)) :
    Accepts (do times (← Reader.varUInt32) step) (Grammar.Counted.bytes bytes)
      (fun _ list => list.items.map event) (Place.behind (Grammar.Counted.bytes bytes)) := by
  have plain (items : List ν) :
      items.zipIdx.map (fun (item, _) => event item) = items.map event := by
    rw [← rowEvents_eq_zipIdx (fun _ => event) (Place.behind bytes) 0 Grammar.Module.start,
      rowEvents_eq_map]
  have all := @accepts_numbered ν bytes step (fun _ => event) fun i => each (.ofNat i)
  simp only [plain] at all
  exact all

/-! ## Subsections -/

/-- What is left to do after a step that has come to the place where it had to stop. -/
theorem Fills.of_bind {step : Nat → Scanner Unit} {events : Place → ν → List Event}
    {after : Place → ν → Place} (fills : Fills step bytes events after) {next : Scanner β}
    {result : β} (h : (do
      step stop
      liftM (expectAt stop)
      next) (scan.ahead ahead) = .ok result last) :
    ∃ node rest, ∃ middle : Scan, ahead = bytes node ++ rest ∧
      scan.cursor.position + (bytes node).length = stop ∧ middle.cursor.position = stop ∧
      next (middle.ahead rest) = .ok result last := by
  obtain ⟨⟨⟩, middle, here, h⟩ := state_bind_eq_ok.1 h
  obtain ⟨_, _, at_end, there⟩ := state_bind_eq_ok.1 h
  obtain ⟨_, ended, rfl⟩ := read_eq_ok.1 at_end
  obtain ⟨rfl, stops⟩ := expectAt_eq_ok ended
  obtain ⟨place, noted, same⟩ := scan.exists_place
  have position : scan.cursor.position = place.position :=
    congrArg (fun scan => scan.cursor.position) (same ahead)
  obtain ⟨node, rest, rfl, whole⟩ := fills.sound here stops
  rw [same] at here
  rw [position] at whole
  subst whole
  have done := fills.complete place noted node rest
  obtain ⟨-, rfl⟩ := EStateM.Result.ok.inj (here.symm.trans done)
  exact ⟨node, rest, _, rfl, by rw [position], stops, there⟩

theorem run_expectAt (here : scan.cursor.position = stop) :
    (liftM (expectAt stop) : Scanner Unit) scan = .ok () scan := by
  refine read_eq_ok.2 ⟨scan.cursor, state_bind_eq_ok.2 ⟨scan.cursor.position, _, rfl, ?_⟩, rfl⟩
  rw [if_neg (not_not_intro here)]
  rfl

/-- The header of a subsection that ends within its section. -/
theorem notes_header {kind : UInt8} {size : Grammar.Word}
    (within : scan.cursor.position + (kind :: size.bytes).length + size.value.toNat ≤ stop) :
    Notes (liftM (subsectionHeader stop)) scan (kind :: size.bytes)
      (kind, scan.cursor.position + (kind :: size.bytes).length + size.value.toNat) [] := by
  unfold subsectionHeader
  rw [read_bind]
  show Notes _ _ ([kind] ++ size.bytes) _ ([] ++ [])
  refine (notes_read (reads_byte kind)).bind ?_
  rw [read_bind]
  refine (notes_read (accepts_word.complete size)).last ?_
  rw [read_bind]
  refine notes_position_bind ?_
  have place : ((scan.past [kind].length []).past size.bytes.length []).cursor.position =
      scan.cursor.position + (kind :: size.bytes).length := by
    simp only [Scan.past, List.length_cons, List.length_nil]
    omega
  dsimp only
  rw [place, if_neg (Nat.not_lt.2 within)]
  exact notes_pure _

theorem of_header {next : UInt8 × Nat → Scanner β} {result : β}
    (h : (liftM (subsectionHeader stop) >>= next) (scan.ahead ahead) = .ok result last) :
    ∃ kind, ∃ size : Grammar.Word, ∃ rest, ahead = kind :: size.bytes ++ rest ∧
      next (kind, scan.cursor.position + (kind :: size.bytes).length + size.value.toNat)
        ((scan.past (kind :: size.bytes).length []).ahead rest) = .ok result last := by
  obtain ⟨found, middle, here, there⟩ := state_bind_eq_ok.1 h
  obtain ⟨cursor, read, rfl⟩ := read_eq_ok.1 here
  obtain ⟨kind, rest, one, read⟩ := accepts_byte.of_bind read
  obtain ⟨size, rest, two, read⟩ := accepts_word.of_bind read
  replace read := Reader.of_position_bind read
  dsimp only at read
  split at read
  · cases read
  · cases read
    refine ⟨kind, size, rest, by rw [one, two]; rfl, ?_⟩
    rw [← there]
    simp [Scan.past, Scan.ahead, Nat.add_assoc, Nat.add_comm 1]

section Subsections

variable {kind : ν → UInt8} {entries : UInt8 → Nat → Scanner Unit}
  (each : ∀ b, Fills (entries b) (fun contents : { contents // kind contents = b } =>
    bytes contents.1) (fun _ contents => events contents.1)
    (Place.behind fun contents => bytes contents.1))

include each

/-- Subsections are read one behind the other. -/
theorem run_subsectionsUpTo {place : Place} {nodes : List (Subsection ν kind bytes)} {limit : Nat}
    (enough : nodes.length ≤ limit)
    (here : place.position + (nodes.flatMap Subsection.bytes).length = stop) (noted : List Event)
    (rest : Bytes) :
    subsectionsUpTo stop entries limit
        ((place.scan noted).ahead (nodes.flatMap Subsection.bytes ++ rest)) =
      .ok () (((Place.behind (List.flatMap Subsection.bytes) place nodes).scan
        (noted ++ nodes.flatMap fun node => events node.contents)).ahead rest) := by
  induction nodes generalizing place noted limit with
  | nil => exact @notes_subsectionsUpTo_end (place.scan noted) entries stop here limit rest
  | cons node nodes ih =>
    obtain ⟨size, contents, filled⟩ := node
    obtain ⟨limit, rfl⟩ : ∃ more, limit = more + 1 :=
      Nat.exists_eq_add_one.2 (Nat.lt_of_lt_of_le (Nat.zero_lt_succ _) enough)
    let head := kind contents :: size.bytes
    let inner := place.past head.length
    have some : 0 < head.length := Nat.zero_lt_succ _
    have whole : inner.position + (bytes contents).length +
        (nodes.flatMap Subsection.bytes).length = stop := by
      rw [← here, List.flatMap_cons, List.length_append, Subsection.bytes, List.length_append,
        ← Nat.add_assoc, ← Nat.add_assoc]
      rfl
    have opens : Notes (liftM (subsectionHeader stop)) (place.scan noted) head
        (kind contents, inner.position + (bytes contents).length) [] := by
      rw [← filled]
      refine notes_header ?_
      rw [filled]
      exact Nat.le.intro whole
    have reads := (each (kind contents)).complete inner noted ⟨contents, rfl⟩
      (nodes.flatMap Subsection.bytes ++ rest)
    have others := @ih (inner.past (bytes contents).length) limit (Nat.le_of_succ_le_succ enough)
      whole (noted ++ events contents)
    -- The header alone takes a byte, so that there is something left to read.
    have before : place.position < stop := by
      rw [← whole]
      show place.position < place.position + head.length + _ + _
      omega
    rw [List.flatMap_cons, Subsection.bytes, List.append_assoc, List.append_assoc]
    refine state_bind_eq_ok.2 ⟨place.position, _, rfl, ?_⟩
    rw [if_pos before, opens.run_bind, Scan.scan_past, List.append_nil]
    refine state_bind_eq_ok.2 ⟨(), _, reads, ?_⟩
    refine state_bind_eq_ok.2 ⟨(), _, run_expectAt rfl, ?_⟩
    have last : Place.behind (List.flatMap Subsection.bytes)
        (inner.past (bytes contents).length) nodes =
        Place.behind (List.flatMap Subsection.bytes) place (⟨size, contents, filled⟩ :: nodes) := by
      simp only [Place.behind, Place.past, List.flatMap_cons, List.length_append, Subsection.bytes,
        inner, head, Nat.add_assoc]
    rw [last, List.append_assoc] at others
    exact others

theorem nodes_of_subsectionsUpTo {limit : Nat} (enough : stop - scan.cursor.position ≤ limit)
    (h : subsectionsUpTo stop entries limit (scan.ahead ahead) = .ok () last)
    (here : last.cursor.position = stop) :
    ∃ (nodes : List (Subsection ν kind bytes)) (rest : Bytes),
      ahead = nodes.flatMap Subsection.bytes ++ rest ∧
      scan.cursor.position + (nodes.flatMap Subsection.bytes).length = stop := by
  induction limit generalizing scan ahead with
  | zero =>
    cases h
    exact ⟨[], ahead, rfl, here⟩
  | succ limit ih =>
    replace h := of_position_bind h
    split at h
    · next more =>
      obtain ⟨b, size, rest, one, h⟩ := of_header h
      obtain ⟨⟨contents, rfl⟩, rest, middle, two, filled, position, h⟩ := (each b).of_bind h
      simp only [Scan.past, Scan.ahead] at filled more
      have some : 0 < (kind contents :: size.bytes).length := Nat.zero_lt_succ _
      obtain ⟨nodes, rest, three, whole⟩ := ih (by omega) h
      refine ⟨⟨size, contents, by omega⟩ :: nodes, rest, ?_, ?_⟩
      · rw [one, two, three, List.flatMap_cons, Subsection.bytes]
        simp
      · rw [List.flatMap_cons, List.length_append, Subsection.bytes, List.length_append]
        dsimp only
        omega
    · cases h
      exact ⟨[], ahead, rfl, here⟩

/-- Subsections fill a section if each of them is filled by what it is for. -/
theorem fills_subsections :
    Fills (fun stop => subsections stop entries)
      (fun nodes : List (Subsection ν kind bytes) => nodes.flatMap Subsection.bytes)
      (fun _ nodes => nodes.flatMap fun node => events node.contents)
      (Place.behind (List.flatMap Subsection.bytes)) where
  complete place noted nodes rest := by
    have few : nodes.length ≤ (nodes.flatMap Subsection.bytes).length :=
      length_le_flatMap fun node _ => Nat.zero_lt_succ _
    refine state_bind_eq_ok.2 ⟨_, _, rfl, ?_⟩
    refine run_subsectionsUpTo each ?_ rfl noted rest
    show nodes.length ≤ place.position + (nodes.flatMap Subsection.bytes).length - place.position
    omega
  sound := by
    intro scan ahead stop last h here
    exact nodes_of_subsectionsUpTo each (Nat.le_refl _) (of_position_bind h) here

end Subsections

/-! ## What subsections are for -/

theorem accepts_functionName :
    Accepts (do
      let index ← Reader.varUInt32
      let name ← Reader.text
      emit (.functionName index name)) Grammar.FunctionName.bytes (fun _ entry => [entry.event])
      (Place.behind Grammar.FunctionName.bytes) := by
  refine accepts_of_notes (fun place noted entry => ?_) fun h => ?_
  · refine (notes_read (accepts_word.complete entry.index)).bind ?_
    exact (notes_read (accepts_text.complete entry.name)).last (notes_emit _)
  · obtain ⟨index, rest, one, h⟩ := of_read_bind accepts_word h
    obtain ⟨name, rest, two, -⟩ := of_read_bind accepts_text h
    refine ⟨⟨index, name⟩, rest, ?_⟩
    rw [one, two, Grammar.FunctionName.bytes, List.append_assoc]

theorem accepts_segmentInfo (number : Nat) :
    Accepts (segmentInfo (.ofNat number)) Grammar.SegmentInfo.bytes
      (fun _ entry => [entry.event number]) (Place.behind Grammar.SegmentInfo.bytes) := by
  refine accepts_of_notes (fun place noted entry => ?_) fun h => ?_
  · obtain ⟨name, alignment, small, flags⟩ := entry
    refine (notes_read (accepts_text.complete name)).bind (notes_position_bind ?_)
    refine (notes_read (accepts_word.complete alignment)).bind ?_
    dsimp only
    rw [if_neg (UInt32.not_le.2 small)]
    exact (notes_read (accepts_word.complete flags)).last (notes_emit _)
  · obtain ⟨name, rest, one, h⟩ := of_read_bind accepts_text h
    replace h := of_position_bind h
    obtain ⟨alignment, rest, two, h⟩ := of_read_bind accepts_word h
    dsimp only at h
    split at h
    · cases h
    · next small =>
      obtain ⟨flags, rest, three, -⟩ := of_read_bind accepts_word h
      refine ⟨⟨name, alignment, UInt32.not_le.1 small, flags⟩, rest, ?_⟩
      rw [one, two, three, Grammar.SegmentInfo.bytes]
      simp

theorem accepts_initializer :
    Accepts (do
      let priority ← Reader.varUInt32
      let symbol ← Reader.varUInt32
      emit (.initializer priority symbol)) Grammar.Initializer.bytes
      (fun _ entry => [entry.event]) (Place.behind Grammar.Initializer.bytes) := by
  refine accepts_of_notes (fun place noted entry => ?_) fun h => ?_
  · refine (notes_read (accepts_word.complete entry.priority)).bind ?_
    exact (notes_read (accepts_word.complete entry.symbol)).last (notes_emit _)
  · obtain ⟨priority, rest, one, h⟩ := of_read_bind accepts_word h
    obtain ⟨symbol, rest, two, -⟩ := of_read_bind accepts_word h
    refine ⟨⟨priority, symbol⟩, rest, ?_⟩
    rw [one, two, Grammar.Initializer.bytes, List.append_assoc]

def symbolStep (number : UInt32) : Scanner Unit := do
  let entry ← symbolEntry
  emit (.symbol number entry)

theorem accepts_symbolStep (number : Nat) :
    Accepts (symbolStep (.ofNat number)) Grammar.Symbol.bytes
      (fun _ entry => [entry.event number]) (Place.behind Grammar.Symbol.bytes) := by
  refine accepts_of_notes (fun place noted entry => ?_) fun h => ?_
  · exact (notes_read (accepts_symbolEntry.complete entry)).last (notes_emit _)
  · obtain ⟨entry, rest, whole, -⟩ := of_read_bind accepts_symbolEntry h
    exact ⟨entry, rest, whole⟩

theorem accepts_relocation (target : UInt32) :
    Accepts (do
      let relocation ← relocationEntry
      emit (.relocation target relocation)) Grammar.Relocation.bytes
      (fun _ entry => [.relocation target entry.value])
      (Place.behind Grammar.Relocation.bytes) := by
  refine accepts_of_notes (fun place noted entry => ?_) fun h => ?_
  · exact (notes_read (accepts_relocationEntry.complete entry)).last (notes_emit _)
  · obtain ⟨entry, rest, whole, -⟩ := of_read_bind accepts_relocationEntry h
    exact ⟨entry, rest, whole⟩

theorem nameEntries_of_ne {kind : UInt8} (unknown : kind ≠ CustomSection.functionNames) :
    nameEntries kind = fun stop => liftM (advanceTo stop) := by
  funext stop
  unfold nameEntries
  split
  · exact absurd rfl unknown
  · rfl

theorem fills_nameEntries (kind : UInt8) :
    Fills (nameEntries kind)
      (fun contents : { contents : Grammar.NameContents // contents.kind = kind } =>
        contents.1.bytes)
      (fun _ contents => contents.1.events) (Place.behind fun contents => contents.1.bytes) := by
  have names := (accepts_counted _ fun _ => accepts_functionName).fills fun _ _ => rfl
  constructor
  · rintro place noted ⟨contents, rfl⟩ rest
    cases contents with
    | functions list => exact names.complete place noted list rest
    | other kind unknown payload =>
      show nameEntries kind _ _ = _
      rw [nameEntries_of_ne unknown]
      exact fills_advanceTo.complete place noted payload rest
  · intro scan ahead stop last h here
    by_cases known : kind = CustomSection.functionNames
    · subst known
      obtain ⟨list, rest, whole, stops⟩ := names.sound h here
      exact ⟨⟨.functions list, rfl⟩, rest, whole, stops⟩
    · rw [nameEntries_of_ne known] at h
      obtain ⟨payload, rest, whole, stops⟩ := fills_advanceTo.sound h here
      exact ⟨⟨.other kind known payload, rfl⟩, rest, whole, stops⟩

theorem linkingEntries_of_ne {kind : UInt8} (unknown : kind ≠ CustomSection.segmentInfos ∧
    kind ≠ CustomSection.initializers ∧ kind ≠ CustomSection.symbolTable) :
    linkingEntries kind = fun stop => liftM (advanceTo stop) := by
  funext stop
  unfold linkingEntries
  split
  · exact absurd rfl unknown.1
  · exact absurd rfl unknown.2.1
  · exact absurd rfl unknown.2.2
  · rfl

theorem fills_linkingEntries (kind : UInt8) :
    Fills (linkingEntries kind)
      (fun contents : { contents : Grammar.LinkingContents // contents.kind = kind } =>
        contents.1.bytes)
      (fun _ contents => contents.1.events) (Place.behind fun contents => contents.1.bytes) := by
  have infos := (accepts_numbered segmentInfo accepts_segmentInfo).fills fun _ _ => rfl
  have initializers := (accepts_counted _ fun _ => accepts_initializer).fills fun _ _ => rfl
  have symbols := (accepts_numbered symbolStep accepts_symbolStep).fills fun _ _ => rfl
  constructor
  · rintro place noted ⟨contents, rfl⟩ rest
    cases contents with
    | segmentInfos list => exact infos.complete place noted list rest
    | initializers list => exact initializers.complete place noted list rest
    | symbolTable list => exact symbols.complete place noted list rest
    | other kind payload unknown =>
      show linkingEntries kind _ _ = _
      rw [linkingEntries_of_ne unknown]
      exact fills_advanceTo.complete place noted payload rest
  · intro scan ahead stop last h here
    by_cases info : kind = CustomSection.segmentInfos
    · subst info
      obtain ⟨list, rest, whole, stops⟩ := infos.sound h here
      exact ⟨⟨.segmentInfos list, rfl⟩, rest, whole, stops⟩
    by_cases initializer : kind = CustomSection.initializers
    · subst initializer
      obtain ⟨list, rest, whole, stops⟩ := initializers.sound h here
      exact ⟨⟨.initializers list, rfl⟩, rest, whole, stops⟩
    by_cases symbol : kind = CustomSection.symbolTable
    · subst symbol
      obtain ⟨list, rest, whole, stops⟩ := symbols.sound h here
      exact ⟨⟨.symbolTable list, rfl⟩, rest, whole, stops⟩
    · rw [linkingEntries_of_ne ⟨info, initializer, symbol⟩] at h
      obtain ⟨payload, rest, whole, stops⟩ := fills_advanceTo.sound h here
      exact ⟨⟨.other kind payload ⟨info, initializer, symbol⟩, rfl⟩, rest, whole, stops⟩

/-! ## Custom sections -/

theorem fills_names :
    Fills (fun stop => subsections stop nameEntries)
      (fun nodes : List Grammar.NameSubsection => (Grammar.CustomContents.names nodes).bytes)
      (fun _ nodes => (Grammar.CustomContents.names nodes).events)
      (Place.behind fun nodes => (Grammar.CustomContents.names nodes).bytes) :=
  fills_subsections fills_nameEntries

/-- The version of a linking section, then its subsections. -/
theorem fills_linkingSection :
    Fills linkingSection
      (fun node : { version : Grammar.Word // version.value = CustomSection.linkingVersion } ×
        List Grammar.LinkingSubsection =>
        (Grammar.CustomContents.linking node.1.1 node.1.2 node.2).bytes)
      (fun _ node => (Grammar.CustomContents.linking node.1.1 node.1.2 node.2).events)
      (Place.behind fun node =>
        (Grammar.CustomContents.linking node.1.1 node.1.2 node.2).bytes) where
  complete := by
    rintro place noted ⟨⟨version, known⟩, nodes⟩ rest
    have stop : place.position + (Grammar.CustomContents.linking version known nodes).bytes.length =
        (place.past version.bytes.length).position + (nodes.flatMap Subsection.bytes).length := by
      rw [Grammar.CustomContents.bytes, List.length_append, ← Nat.add_assoc]
      rfl
    have notes : Notes (linkingSection (place.position +
        (Grammar.CustomContents.linking version known nodes).bytes.length)) (place.scan noted)
        (version.bytes ++ nodes.flatMap Subsection.bytes) ()
        ([] ++ nodes.flatMap fun node => node.contents.events) := by
      rw [stop]
      refine notes_position_bind ((notes_read (accepts_word.complete version)).bind ?_)
      rw [Scan.scan_past]
      dsimp only
      rw [if_neg (not_not_intro known)]
      exact (fills_subsections fills_linkingEntries).complete (place.past version.bytes.length)
        (noted ++ []) nodes
    exact notes rest
  sound := by
    intro scan ahead stop last h here
    replace h := of_position_bind h
    obtain ⟨version, rest, one, h⟩ := of_read_bind accepts_word h
    dsimp only at h
    split at h
    · cases h
    · next known =>
      obtain ⟨nodes, rest, two, stops⟩ := (fills_subsections fills_linkingEntries).sound h here
      refine ⟨⟨⟨version, Decidable.not_not.1 known⟩, nodes⟩, rest, ?_, ?_⟩
      · rw [one, two, Grammar.CustomContents.bytes, List.append_assoc]
      · rw [Grammar.CustomContents.bytes, List.length_append, ← Nat.add_assoc]
        exact stops

theorem accepts_relocationSection :
    Accepts relocationSection
      (fun node : Grammar.Word × Grammar.Counted Grammar.Relocation =>
        (Grammar.CustomContents.relocations node.1 node.2).bytes)
      (fun _ node => (Grammar.CustomContents.relocations node.1 node.2).events)
      (Place.behind fun node => (Grammar.CustomContents.relocations node.1 node.2).bytes) := by
  refine accepts_of_notes (fun place noted node => ?_) fun h => ?_
  · obtain ⟨target, list⟩ := node
    refine (notes_read (accepts_word.complete target)).bind ?_
    rw [Scan.scan_past]
    exact (accepts_counted _ fun _ => accepts_relocation target.value).notes _ _ list
  · obtain ⟨target, rest, one, h⟩ := of_read_bind accepts_word h
    obtain ⟨list, rest, two⟩ := (accepts_counted _ fun _ => accepts_relocation target.value).sound h
    refine ⟨⟨target, list⟩, rest, ?_⟩
    rw [one, two, Grammar.CustomContents.bytes, List.append_assoc]

/-- The entries of a custom section of this kind. -/
def customStep : CustomSection.Kind → (stop : Nat) → Scanner Unit
  | .linking => linkingSection
  | .names => fun stop => subsections stop nameEntries
  | .relocations => fun _ => relocationSection
  | .ignored => fun stop => liftM (advanceTo stop)

theorem customEntries_eq (name : String) :
    customEntries name = customStep (CustomSection.Kind.ofName name) := by
  funext stop
  unfold customEntries
  cases CustomSection.Kind.ofName name <;> rfl

theorem fills_customStep (kind : CustomSection.Kind) :
    Fills (customStep kind)
      (fun contents : { contents : Grammar.CustomContents // kind = contents.kind } =>
        contents.1.bytes)
      (fun _ contents => contents.1.events) (Place.behind fun contents => contents.1.bytes) := by
  have relocations := accepts_relocationSection.fills fun _ _ => rfl
  constructor
  · rintro place noted ⟨contents, rfl⟩ rest
    cases contents with
    | linking version known nodes =>
      exact fills_linkingSection.complete place noted ⟨⟨version, known⟩, nodes⟩ rest
    | names nodes => exact fills_names.complete place noted nodes rest
    | relocations target list => exact relocations.complete place noted ⟨target, list⟩ rest
    | ignored payload => exact fills_advanceTo.complete place noted payload rest
  · intro scan ahead stop last h here
    cases kind with
    | linking =>
      obtain ⟨⟨⟨version, known⟩, nodes⟩, rest, whole, stops⟩ := fills_linkingSection.sound h here
      exact ⟨⟨.linking version known nodes, rfl⟩, rest, whole, stops⟩
    | names =>
      obtain ⟨nodes, rest, whole, stops⟩ := fills_names.sound h here
      exact ⟨⟨.names nodes, rfl⟩, rest, whole, stops⟩
    | relocations =>
      obtain ⟨⟨target, list⟩, rest, whole, stops⟩ := relocations.sound h here
      exact ⟨⟨.relocations target list, rfl⟩, rest, whole, stops⟩
    | ignored =>
      obtain ⟨payload, rest, whole, stops⟩ := fills_advanceTo.sound h here
      exact ⟨⟨.ignored payload, rfl⟩, rest, whole, stops⟩

/-- What stands in a custom section behind this name. -/
theorem fills_customEntries (name : String) :
    Fills (customEntries name)
      (fun contents : { contents : Grammar.CustomContents //
        CustomSection.Kind.ofName name = contents.kind } => contents.1.bytes)
      (fun _ contents => contents.1.events) (Place.behind fun contents => contents.1.bytes) := by
  rw [customEntries_eq]
  exact fills_customStep _

end Scanner

end StaticLink
