import StaticLink.Proofs.Scan.Confinement

/-!
# Steps of a scan, written out

A `Scanner.Script` writes out what a step of a scan does, one thing after another: it reads, or it
notes an event. The step itself stands in the type of the script, so that the script is one of the
scan as it is. So does a budget, by which the events may be ahead of the bytes that were taken. As a
script can be written only where the budget is kept, there is an event for a byte at most, however
many entries a count promises.

* `Scanner.Quiet`: a step that notes nothing.
* `Scanner.Script`: the scripts of steps.
* `Scanner.oneSubsection`: what is done again and again in a section with subsections.
* `Script.module`: the script of a whole scan, from those of its parts.
-/

namespace StaticLink

namespace Cursor

variable {cursor middle next : Cursor} {least more : Nat} {file : Bytes}

/-- The next cursor is so many bytes further on, or more, and these bytes are there. -/
def Ahead (cursor : Cursor) (least : Nat) (next : Cursor) : Prop :=
  ∃ size, least ≤ size ∧ size ≤ cursor.rest.length ∧ next = cursor.advance size

theorem Ahead.refl (cursor : Cursor) : cursor.Ahead 0 cursor :=
  ⟨0, Nat.le_refl 0, Nat.zero_le _, rfl⟩

theorem Ahead.trans (first : cursor.Ahead least middle) (second : middle.Ahead more next) :
    cursor.Ahead (least + more) next := by
  obtain ⟨size, enough, within, rfl⟩ := first
  obtain ⟨size', enough', within', rfl⟩ := second
  rw [length_rest_advance] at within'
  exact ⟨size + size', by omega, by omega, advance_advance cursor size size'⟩

theorem Ahead.weaken (ahead : cursor.Ahead more next) (le : least ≤ more) :
    cursor.Ahead least next := by
  obtain ⟨size, enough, within, same⟩ := ahead
  exact ⟨size, Nat.le_trans le enough, within, same⟩

theorem Ahead.position_le (ahead : cursor.Ahead least next) :
    cursor.position + least ≤ next.position := by
  obtain ⟨size, enough, -, rfl⟩ := ahead
  exact Nat.add_le_add_left enough _

theorem Ahead.length_le (ahead : cursor.Ahead least next) :
    next.rest.length + least ≤ cursor.rest.length := by
  obtain ⟨size, enough, within, rfl⟩ := ahead
  rw [length_rest_advance]
  omega

theorem In.ahead (inside : cursor.In file) (ahead : cursor.Ahead least next) : next.In file := by
  obtain ⟨size, -, within, rfl⟩ := ahead
  exact inside.advance within

end Cursor

namespace Scanner

open Reader

variable {α β : Type} {budget spent least : Nat} {step : Scanner α} {rest : α → Scanner β}
  {reader : Reader α}

/-! ## Steps that note nothing -/

/-- The step notes nothing. It moves forward, and where it succeeds, by so many bytes or more. -/
structure Quiet (step : Scanner α) (least : Nat) : Prop where
  silent : ∀ before : Scan, (lastState (step before)).events = before.events
  onward : ∀ before : Scan, before.cursor.Ahead 0 (lastState (step before)).cursor
  takes : ∀ before value after, step before = .ok value after →
    before.cursor.Ahead least after.cursor

theorem Quiet.weaken (quiet : Quiet step least) : Quiet step 0 where
  silent := quiet.silent
  onward := quiet.onward
  takes := fun before value after h => (quiet.takes before value after h).weaken (Nat.zero_le least)

theorem Quiet.discard (quiet : Quiet step least) : Quiet (discard step) least := by
  have last (before : Scan) :
      lastState (Functor.discard step before) = lastState (step before) := by
    show lastState ((step >>= fun _ => pure ()) before) = _
    rcases ran : step before with ⟨value, after⟩ | ⟨fault, after⟩
    · rw [state_bind_of_ok ran]
      rfl
    · rw [state_bind_of_error ran]
      rfl
  constructor
  · intro before
    rw [last]
    exact quiet.silent before
  · intro before
    rw [last]
    exact quiet.onward before
  · intro before _ after h
    obtain ⟨value, h⟩ := discard_eq_ok.1 h
    exact quiet.takes before value after h

/-- A step that succeeds and leaves the cursor and the events as they are. -/
theorem quiet_of_same {answer : Scan → α} {change : Scan → Scan}
    (succeeds : ∀ scan, step scan = .ok (answer scan) (change scan))
    (same : ∀ scan, (change scan).cursor = scan.cursor ∧ (change scan).events = scan.events) :
    Quiet step 0 where
  silent := by
    intro before
    rw [succeeds]
    exact (same before).2
  onward := by
    intro before
    rw [succeeds, lastState, (same before).1]
    exact .refl _
  takes := by
    intro before value after h
    rw [succeeds] at h
    cases h
    rw [(same before).1]
    exact .refl _

theorem quiet_pure (value : α) : Quiet (pure value) 0 :=
  quiet_of_same (fun _ => rfl) fun _ => ⟨rfl, rfl⟩

theorem quiet_get : Quiet (get : Scanner Scan) 0 :=
  quiet_of_same (fun _ => rfl) fun _ => ⟨rfl, rfl⟩

/-- To count what was imported, or what was met, is to note nothing. -/
theorem quiet_modify {change : Scan → Scan}
    (same : ∀ scan, (change scan).cursor = scan.cursor ∧ (change scan).events = scan.events) :
    Quiet (modify change) 0 :=
  quiet_of_same (fun _ => rfl) same

theorem lastState_read (before : Scan) : lastState ((liftM reader : Scanner α) before) =
    { before with cursor := lastState (reader before.cursor) } := by
  show lastState (read reader before) = _
  unfold read
  rcases reader before.cursor with ⟨value, next⟩ | ⟨fault, next⟩
  · rfl
  · rfl

theorem quiet_read (advances : Advances reader least)
    (onward : ∀ cursor : Cursor, cursor.Ahead 0 (lastState (reader cursor))) :
    Quiet (liftM reader) least where
  silent := by
    intro before
    rw [lastState_read]
  onward := by
    intro before
    rw [lastState_read]
    exact onward before.cursor
  takes := by
    intro before value after h
    obtain ⟨next, read, rfl⟩ := read_eq_ok.1 h
    exact advances _ _ _ read

theorem quiet_of_confined (confined : Confined reader) (advances : Advances reader least) :
    Quiet (liftM reader) least := by
  refine quiet_read advances fun cursor => ?_
  rcases answer : reader cursor with ⟨value, last⟩ | ⟨fault, last⟩
  · exact Cursor.Ahead.weaken (advances cursor value last answer) (Nat.zero_le least)
  · obtain ⟨size, within, same⟩ := confined.failed cursor fault last answer
    exact ⟨size, Nat.zero_le _, within, same⟩

/-! ## Readers -/

theorem confined_segmentOwner : Confined segmentOwner := by
  refine confined_position.bind fun start => confined_varUInt32.bind fun flags => ?_
  split
  · exact confined_pure _
  · exact confined_varUInt32.bind fun _ => confined_pure _
  · exact confined_failAt start _

theorem confined_indicesOnto (count : Nat) (later : List UInt32) :
    Confined (indicesOnto count later) := by
  induction count generalizing later with
  | zero => exact confined_pure _
  | succ count ih => exact confined_varUInt32.bind fun index => ih (index :: later)

theorem confined_indices : Confined indices :=
  confined_varUInt32.bind fun count => confined_indicesOnto count.toNat []

theorem confined_subsectionHeader (stop : Nat) : Confined (subsectionHeader stop) := by
  refine confined_byte.bind fun kind => confined_varUInt32.bind fun size => ?_
  refine confined_position.bind fun start => ?_
  dsimp only
  split
  · exact (confined_failAt start _).bind fun _ => confined_pure _
  · exact confined_pure _

theorem confined_symbolEntry : Confined symbolEntry := by
  refine (confined_code _).bind fun kind => confined_varUInt32.bind fun bits => ?_
  have named (condition : Bool) : Confined (do
      let index ← varUInt32
      let name ← if condition then some <$> text else pure none
      return (index, name)) := by
    refine confined_varUInt32.bind fun index => ?_
    split
    · exact (confined_text.map some).bind fun _ => confined_pure _
    · exact (confined_pure none).bind fun _ => confined_pure _
  dsimp only
  split
  · exact (named _).bind fun _ => confined_pure _
  · exact (named _).bind fun _ => confined_pure _
  · exact (named _).bind fun _ => confined_pure _
  · exact (named _).bind fun _ => confined_pure _
  · refine confined_text.bind fun name => ?_
    split
    · refine confined_varUInt32.bind fun segment => confined_varUInt32.bind fun offset => ?_
      exact confined_varUInt32.bind fun size => confined_pure _
    · exact confined_pure _
  · exact confined_varUInt32.bind fun position => confined_pure _

theorem confined_relocationEntry : Confined relocationEntry := by
  refine (confined_code _).bind fun kind => confined_varUInt32.bind fun offset => ?_
  refine confined_varUInt32.bind fun index => ?_
  split
  · exact confined_varInt64.bind fun _ => confined_pure _
  · exact (confined_pure _).bind fun _ => confined_pure _

theorem quiet_position : Quiet (liftM position) 0 :=
  quiet_of_confined confined_position advances_position

theorem quiet_failAt (offset : Nat) (defect : Defect) :
    Quiet (liftM (failAt offset defect : Reader α)) 0 :=
  quiet_of_confined (confined_failAt offset defect) (advances_failAt offset defect 0)

theorem quiet_varUInt32 : Quiet (liftM varUInt32) 1 :=
  quiet_of_confined confined_varUInt32 advances_varUInt32

theorem quiet_code (ofByte : UInt8 → Except Defect α) : Quiet (liftM (code ofByte)) 1 :=
  quiet_of_confined (confined_code ofByte) (advances_code ofByte)

theorem quiet_text : Quiet (liftM text) 1 := quiet_of_confined confined_text advances_text

theorem quiet_advanceTo (stop : Nat) : Quiet (liftM (advanceTo stop)) 0 :=
  quiet_of_confined (confined_advanceTo stop) (advances_advanceTo stop)

theorem quiet_expectAt (stop : Nat) : Quiet (liftM (expectAt stop)) 0 :=
  quiet_of_confined (confined_expectAt stop) (advances_expectAt stop)

theorem quiet_limits : Quiet (liftM limits) 1 := quiet_of_confined confined_limits advances_limits

theorem quiet_tableType : Quiet (liftM tableType) 1 :=
  quiet_of_confined confined_tableType advances_tableType

theorem quiet_globalType : Quiet (liftM globalType) 1 :=
  quiet_of_confined confined_globalType advances_globalType

theorem quiet_constantI32 : Quiet (liftM constantI32) 1 :=
  quiet_of_confined confined_constantI32 advances_constantI32

theorem quiet_skipConstant : Quiet (liftM skipConstant) 1 :=
  quiet_of_confined confined_skipConstant advances_skipConstant

theorem quiet_segmentOwner : Quiet (liftM segmentOwner) 1 :=
  quiet_of_confined confined_segmentOwner advances_segmentOwner

theorem quiet_indices : Quiet (liftM indices) 1 :=
  quiet_of_confined confined_indices advances_indices

theorem quiet_span (count : Nat) : Quiet (liftM (span count)) 0 :=
  (quiet_of_confined (confined_span count) (advances_span count)).weaken

/-- To look ahead is to stay. -/
theorem quiet_spanAhead (count : Nat) : Quiet (liftM (spanAhead count)) 0 := by
  refine quiet_read (advances_of_same fun cursor span next h => (spanAhead_eq_ok h).1) ?_
  intro cursor
  rw [spanAhead_apply]
  split
  · exact .refl cursor
  · exact .refl cursor

theorem quiet_subsectionHeader (stop : Nat) : Quiet (liftM (subsectionHeader stop)) 1 :=
  quiet_of_confined (confined_subsectionHeader stop) (advances_subsectionHeader stop)

theorem quiet_symbolEntry : Quiet (liftM symbolEntry) 1 :=
  quiet_of_confined confined_symbolEntry advances_symbolEntry

theorem quiet_relocationEntry : Quiet (liftM relocationEntry) 1 :=
  quiet_of_confined confined_relocationEntry advances_relocationEntry

theorem quiet_header : Quiet (liftM header) 4 := quiet_of_confined confined_header advances_header

/-! ## Scripts -/

/-- What is done for each subsection. -/
def oneSubsection (stop : Nat) (entries : UInt8 → (stop : Nat) → Scanner Unit) : Scanner Unit := do
  let (kind, subsectionStop) ← subsectionHeader stop
  entries kind subsectionStop
  Reader.expectAt subsectionStop

/-- What the step does, one thing after another. At no time has it noted more events than the bytes
it has taken and so many more. -/
inductive Script : {α : Type} → (budget : Nat) → Scanner α → Type 1
  | emit {budget : Nat} (event : Event) : Script (budget + 1) (emit event)
  | quiet {α : Type} {budget least : Nat} {step : Scanner α} : Quiet step least → Script budget step
  /-- What is taken first is added to the budget of what comes then. -/
  | after {α β : Type} {budget least : Nat} {step : Scanner α} {rest : α → Scanner β} :
      Quiet step least → (∀ value, Script (budget + least) (rest value)) →
        Script budget (step >>= rest)
  | bind {α β : Type} {budget spent : Nat} {step : Scanner α} {rest : α → Scanner β} :
      Script spent step → (∀ value, Script budget (rest value)) →
        Script (budget + spent) (step >>= rest)
  | ite {α : Type} {budget : Nat} (condition : Prop) [Decidable condition] {yes no : Scanner α} :
      Script budget yes → Script budget no → Script budget (if condition then yes else no)

namespace Script

/-- What is taken first is not needed for what comes then. -/
def pass (quiet : Quiet step least) (next : ∀ value, Script budget (rest value)) :
    Script budget (step >>= rest) :=
  .after quiet.weaken next

/-- What keeps to its own bytes leaves the budget to what comes then. -/
def seq (first : Script 0 step) (next : ∀ value, Script budget (rest value)) :
    Script budget (step >>= rest) :=
  .bind first next

/-- An event, and then what keeps to the rest of the budget. -/
def note (event : Event) {rest : Unit → Scanner β} (next : Script budget (rest ())) :
    Script (budget + 1) (Scanner.emit event >>= rest) :=
  .bind (@Script.emit 0 event) fun _ => next

def timesFrom {step : UInt32 → Scanner Unit} (each : ∀ i, Script 0 (step i)) :
    (count : Nat) → (first : UInt32) → Script 0 (Scanner.timesFrom step count first)
  | 0, _ => .quiet (quiet_pure ())
  | count + 1, first => .seq (each first) fun _ => timesFrom each count (first + 1)

def times {step : UInt32 → Scanner Unit} (count : UInt32) (each : ∀ i, Script 0 (step i)) :
    Script 0 (Scanner.times count step) :=
  timesFrom each count.toNat 0

/-! ### Entries of vector sections -/

/-- An import that is counted and then noted. -/
def counted {change : Scan → Scan}
    (same : ∀ scan, (change scan).cursor = scan.cursor ∧ (change scan).events = scan.events)
    (event : Event) : Script (budget + 1) (do modify change; Scanner.emit event) :=
  .after (quiet_modify same) fun _ => .emit event

def importEntry : Script 0 Scanner.importEntry :=
  -- What is counted is told by the step, so that what it keeps is shown last.
  .after quiet_text fun _ => .after quiet_text fun _ => .after quiet_position fun start =>
  .after (quiet_code _) fun
    | .function => .after quiet_varUInt32 fun _ => .after quiet_get fun _ =>
      .counted (fun _ => by exact ⟨rfl, rfl⟩) _
    | .table => .after quiet_tableType fun _ => .after quiet_get fun _ =>
      .counted (fun _ => by exact ⟨rfl, rfl⟩) _
    | .memory => .after quiet_limits fun _ => .after quiet_get fun _ =>
      .counted (fun _ => by exact ⟨rfl, rfl⟩) _
    | .global => .after quiet_globalType fun _ => .after quiet_get fun _ =>
      .counted (fun _ => by exact ⟨rfl, rfl⟩) _
    | .tag => .quiet (quiet_failAt start _)

def exportEntry : Script 0 Scanner.exportEntry :=
  .after quiet_text fun _ => .after (quiet_code _) fun _ => .after quiet_varUInt32 fun _ => .emit _

def elementSegment (index : UInt32) : Script 0 (Scanner.elementSegment index) :=
  .after quiet_segmentOwner fun _ => .after quiet_constantI32 fun _ => .ite _
    (.after (quiet_code _) fun _ => .after quiet_indices fun _ => .emit _)
    (.after quiet_indices fun _ => .emit _)

def dataSegment (index : UInt32) : Script 0 (Scanner.dataSegment index) :=
  .after quiet_segmentOwner fun _ => .after quiet_constantI32 fun _ =>
  .after quiet_varUInt32 fun _ => .after (quiet_span _) fun _ => .emit _

def vectorEntries (id : SectionId) (count : UInt32) (stop : Nat) :
    Script 0 (Scanner.vectorEntries id count stop) :=
  match id with
  | .types | .code => .quiet (quiet_advanceTo stop)
  | .imports => times count fun _ => importEntry
  | .functions => times count fun _ =>
    .after quiet_varUInt32 fun _ => .after quiet_get fun _ => .emit _
  | .tables => times count fun _ =>
    .after quiet_tableType fun _ => .after quiet_get fun _ => .emit _
  | .memories => times count fun _ =>
    .after quiet_limits fun _ => .after quiet_get fun _ => .emit _
  | .globals => times count fun _ =>
    .after quiet_globalType fun _ => .after quiet_skipConstant fun _ =>
    .after quiet_get fun _ => .emit _
  | .exports => times count fun _ => exportEntry
  | .elements => times count elementSegment
  | .data => times count dataSegment
  | .custom | .start | .dataCount => .quiet (quiet_pure ())

/-! ### Entries of custom sections -/

/-- A count and as many entries. -/
def listed {step : UInt32 → Scanner Unit} (each : ∀ i, Script 0 (step i)) :
    Script 0 (do Scanner.times (← Reader.varUInt32) step) :=
  .pass quiet_varUInt32 fun count => times count each

/-- A round of the loop through subsections. -/
def oneSubsection {entries : UInt8 → Nat → Scanner Unit}
    (each : ∀ kind stop, Script 0 (entries kind stop)) (stop : Nat) :
    Script 0 (Scanner.oneSubsection stop entries) :=
  .after (quiet_subsectionHeader stop) fun header => .seq (each header.1 header.2) fun _ =>
  .quiet (quiet_expectAt header.2)

def subsectionsUpTo {entries : UInt8 → Nat → Scanner Unit}
    (each : ∀ kind stop, Script 0 (entries kind stop)) (stop : Nat) :
    (limit : Nat) → Script 0 (Scanner.subsectionsUpTo stop entries limit)
  | 0 => .quiet (quiet_pure ())
  | limit + 1 => .pass quiet_position fun _ => .ite _
    (.pass (quiet_subsectionHeader stop) fun header => .seq (each header.1 header.2) fun _ =>
      .pass (quiet_expectAt header.2) fun _ => subsectionsUpTo each stop limit)
    (.quiet (quiet_pure ()))

def subsections {entries : UInt8 → Nat → Scanner Unit}
    (each : ∀ kind stop, Script 0 (entries kind stop)) (stop : Nat) :
    Script 0 (Scanner.subsections stop entries) :=
  .pass quiet_position fun position => subsectionsUpTo each stop (stop - position)

def nameEntries (kind : UInt8) (stop : Nat) : Script 0 (Scanner.nameEntries kind stop) := by
  -- Kinds are told by literals, and no pattern says that a kind is none of them.
  unfold Scanner.nameEntries
  split
  · exact listed fun _ => .after quiet_varUInt32 fun _ => .pass quiet_text fun _ => .emit _
  · exact .quiet (quiet_advanceTo stop)

def segmentInfo (index : UInt32) : Script 0 (Scanner.segmentInfo index) :=
  .after quiet_text fun _ => .pass quiet_position fun start => .pass quiet_varUInt32 fun _ => .ite _
    (.pass (quiet_failAt start _) fun _ => .pass quiet_varUInt32 fun _ => .emit _)
    (.pass quiet_varUInt32 fun _ => .emit _)

def linkingEntries (kind : UInt8) (stop : Nat) : Script 0 (Scanner.linkingEntries kind stop) := by
  unfold Scanner.linkingEntries
  split
  · exact listed segmentInfo
  · exact listed fun _ => .after quiet_varUInt32 fun _ => .pass quiet_varUInt32 fun _ => .emit _
  · exact listed fun _ => .after quiet_symbolEntry fun _ => .emit _
  · exact .quiet (quiet_advanceTo stop)

def linkingSection (stop : Nat) : Script 0 (Scanner.linkingSection stop) :=
  .pass quiet_position fun start => .pass quiet_varUInt32 fun _ => .ite _
    (.pass (quiet_failAt start _) fun _ => subsections linkingEntries stop)
    (subsections linkingEntries stop)

def relocationSection : Script 0 Scanner.relocationSection :=
  .pass quiet_varUInt32 fun _ => listed fun _ => .after quiet_relocationEntry fun _ => .emit _

def customEntries (name : String) (stop : Nat) : Script 0 (Scanner.customEntries name stop) := by
  unfold Scanner.customEntries
  split
  · exact linkingSection stop
  · exact subsections nameEntries stop
  · exact relocationSection
  · exact .quiet (quiet_advanceTo stop)

/-! ### Sections -/

def sectionContents (index : UInt32) (id : SectionId) (range : Span) :
    Script 1 (Scanner.sectionContents index id range) :=
  match id with
  | .custom => .pass quiet_text fun name => .pass quiet_position fun _ =>
    .note _ (customEntries name range.stop)
  | .start => .note _ (.after quiet_varUInt32 fun _ => .emit _)
  | .dataCount => .note _ (.quiet quiet_varUInt32.discard)
  | .types | .imports | .functions | .tables | .memories | .globals | .exports | .elements | .code
  | .data =>
    .pass quiet_varUInt32 fun count => .pass quiet_position fun _ =>
    .note _ (vectorEntries _ count range.stop)

def oneSection : Script 0 Scanner.oneSection :=
  .after (quiet_code _) fun id => .pass quiet_varUInt32 fun size =>
  .pass (quiet_spanAhead size.toNat) fun range => .pass quiet_get fun _ =>
  .pass (quiet_modify fun _ => by exact ⟨rfl, rfl⟩) fun _ =>
  .bind (sectionContents _ id range) fun _ => .quiet (quiet_expectAt range.stop)

def sectionsUpTo : (limit : Nat) → Script 0 (Scanner.sectionsUpTo limit)
  | 0 => .quiet (quiet_pure ())
  | limit + 1 => .pass quiet_get fun _ => .ite _
    (.quiet (quiet_pure ()))
    (.seq oneSection fun _ => sectionsUpTo limit)

/-- What the scan of a file does. -/
def module : Script 0 Scanner.module :=
  .pass quiet_header fun _ => .pass quiet_get fun scan => sectionsUpTo scan.cursor.rest.length

end Script

end Scanner

end StaticLink
