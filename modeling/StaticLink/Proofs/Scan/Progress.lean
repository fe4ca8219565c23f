import StaticLink.Event.Scan
import StaticLink.Proofs.Leb128
import StaticLink.Proofs.Steps

/-!
# A scan moves forward

Readers take bytes off the front of a file and never look back. Whatever a scan notes stands for
bytes of its own, so that a file has fewer structures than bytes.

* `Reader.Advances`: when a reader succeeds, it has taken at least so many bytes.
-/

namespace StaticLink

/-- The kind of section that an event is an entry of. -/
def Event.home : Event → Option SectionId
  | opening _ => none
  | functionImport _ _ _ _ | tableImport _ _ _ _ | memoryImport _ _ _ _
  | globalImport _ _ _ _ => some .imports
  | function _ _ => some .functions
  | table _ _ => some .tables
  | memory _ _ => some .memories
  | global _ _ => some .globals
  | exported _ _ _ => some .exports
  | start _ => some .start
  | elementSegment _ _ _ _ => some .elements
  | dataSegment _ _ _ _ => some .data
  | functionName _ _ | segmentInfo _ _ _ _ | initializer _ _ | symbol _ _
  | relocation _ _ => some .custom

namespace Cursor

theorem advance_advance (cursor : Cursor) (first second : Nat) :
    (cursor.advance first).advance second = cursor.advance (first + second) := by
  simp only [advance, List.drop_drop, Nat.add_assoc]

theorem length_rest_advance (cursor : Cursor) (count : Nat) :
    (cursor.advance count).rest.length = cursor.rest.length - count := List.length_drop

end Cursor

namespace Reader

variable {α β : Type} {reader : Reader α} {least more : Nat}

/-! ## Combining readers -/

/-- When the reader succeeds, it has taken at least so many bytes. -/
def Advances (reader : Reader α) (least : Nat) : Prop :=
  ∀ cursor value next, reader cursor = .ok value next →
    ∃ size, least ≤ size ∧ size ≤ cursor.rest.length ∧ next = cursor.advance size

theorem Advances.weaken (advances : Advances reader more) (le : least ≤ more) :
    Advances reader least := by
  intro cursor value next h
  obtain ⟨size, enough, within, same⟩ := advances cursor value next h
  exact ⟨size, Nat.le_trans le enough, within, same⟩

theorem Advances.bind {rest : α → Reader β} (first : Advances reader least)
    (second : ∀ value, Advances (rest value) more) : Advances (reader >>= rest) (least + more) := by
  intro cursor value next h
  obtain ⟨between, middle, one, two⟩ := state_bind_eq_ok.1 h
  obtain ⟨size, enough, within, rfl⟩ := first _ _ _ one
  obtain ⟨size', enough', within', rfl⟩ := second _ _ _ _ two
  rw [Cursor.length_rest_advance] at within'
  exact ⟨size + size', by omega, by omega, Cursor.advance_advance cursor size size'⟩

/-- The bytes that the first reader takes are enough. -/
theorem Advances.first {rest : α → Reader β} (first : Advances reader least)
    (second : ∀ value, Advances (rest value) 0) : Advances (reader >>= rest) least :=
  first.bind second

/-- The bytes that the later readers take are enough. -/
theorem Advances.later {rest : α → Reader β} (first : Advances reader more)
    (second : ∀ value, Advances (rest value) least) : Advances (reader >>= rest) least :=
  (first.bind second).weaken (Nat.le_add_left least more)

/-- A reader that only looks, or that decides how to go on. -/
theorem advances_of_same (same : ∀ cursor value next, reader cursor = .ok value next →
    next = cursor) : Advances reader 0 := by
  intro cursor value next h
  obtain rfl := same cursor value next h
  exact ⟨0, Nat.le_refl 0, Nat.zero_le _, rfl⟩

theorem advances_pure (value : α) : Advances (pure value) 0 :=
  advances_of_same (by rintro cursor _ _ ⟨⟩; rfl)

theorem advances_position : Advances position 0 :=
  advances_of_same (by rintro cursor _ _ ⟨⟩; rfl)

/-- A reader that fails takes as many bytes as one likes. -/
theorem advances_failAt (offset : Nat) (defect : Defect) (least : Nat) :
    Advances (failAt offset defect : Reader α) least := by
  intro cursor value next h
  cases h

theorem advances_fail (defect : Defect) (least : Nat) :
    Advances (fail defect : Reader α) least := by
  intro cursor value next h
  obtain ⟨_, _, _, h⟩ := state_bind_eq_ok.1 h
  cases h

theorem Advances.map (advances : Advances reader least) (change : α → β) :
    Advances (change <$> reader) least := by
  intro cursor value next h
  rw [map_eq_pure_bind] at h
  exact advances.bind (fun found => advances_pure (change found)) cursor value next h

theorem Advances.discard (advances : Advances reader least) : Advances (discard reader) least :=
  fun cursor _ next h => by
    obtain ⟨value, h⟩ := discard_eq_ok.1 h
    exact advances cursor value next h

/-! ## Single items -/

theorem advances_item {decode : Bytes → Except Defect (α × Nat)}
    (takes : ∀ bytes value size, decode bytes = .ok (value, size) →
      least ≤ size ∧ size ≤ bytes.length) : Advances (item decode) least := by
  intro cursor value next h
  unfold item at h
  split at h
  · next found size decoded =>
    cases h
    obtain ⟨enough, within⟩ := takes _ _ _ decoded
    exact ⟨size, enough, within, rfl⟩
  · cases h

theorem advances_of_prefixed {decode : Bytes → Except Defect (α × Nat)}
    (prefixed : Leb128.Prefixed decode) : Advances (item decode) 1 := by
  refine advances_item fun bytes value size decoded => ?_
  obtain ⟨some, first, rest, rfl, rfl, -⟩ := prefixed bytes value size decoded
  rw [List.length_append]
  omega

theorem advances_varUInt32 : Advances varUInt32 1 :=
  advances_of_prefixed Leb128.prefixed_decodeUInt32

theorem advances_varInt32 : Advances varInt32 1 :=
  advances_of_prefixed Leb128.prefixed_decodeInt32

theorem advances_varInt64 : Advances varInt64 1 :=
  advances_of_prefixed Leb128.prefixed_decodeInt64

theorem advances_byte : Advances byte 1 := by
  refine advances_item fun bytes value size decoded => ?_
  split at decoded
  · cases decoded
    exact ⟨Nat.le_refl 1, Nat.succ_le_succ (Nat.zero_le _)⟩
  · cases decoded

theorem advances_bytes (count : Nat) : Advances (bytes count) count := by
  refine advances_item fun bytes value size decoded => ?_
  split at decoded
  · next split =>
    cases decoded
    obtain ⟨rfl, length⟩ := Bytes.append_of_splitExactly? split
    rw [List.length_append]
    omega
  · cases decoded

theorem advances_word : Advances word 4 :=
  (advances_bytes 4).bind fun _ => advances_pure _

theorem advances_code (ofByte : UInt8 → Except Defect α) : Advances (code ofByte) 1 := by
  refine advances_position.later fun start => advances_byte.first fun b => ?_
  split
  · exact advances_pure _
  · exact advances_failAt start _ 0

/-! ## Runs of bytes -/

/-- The bytes that are looked at are there. -/
theorem spanAhead_eq_ok {count : Nat} {cursor next : Cursor} {span : Span}
    (h : spanAhead count cursor = .ok span next) :
    next = cursor ∧ span = ⟨cursor.position, cursor.position + count⟩ ∧
      count ≤ cursor.rest.length := by
  obtain ⟨_, _, looked, h⟩ := state_bind_eq_ok.1 h
  cases looked
  split at h
  · next enough =>
    cases h
    exact ⟨rfl, rfl, Bytes.hasAtLeast_iff.1 enough⟩
  · obtain ⟨_, _, _, h⟩ := state_bind_eq_ok.1 h
    cases h

theorem advances_span (count : Nat) : Advances (span count) count := by
  intro cursor value next h
  obtain ⟨found, _, looked, h⟩ := state_bind_eq_ok.1 h
  obtain ⟨rfl, rfl, within⟩ := spanAhead_eq_ok looked
  obtain ⟨_, _, moved, h⟩ := state_bind_eq_ok.1 h
  cases moved
  cases h
  exact ⟨count, Nat.le_refl count, within, rfl⟩

theorem advances_advanceTo (stop : Nat) : Advances (advanceTo stop) 0 := by
  intro cursor value next h
  obtain ⟨_, _, looked, h⟩ := state_bind_eq_ok.1 h
  cases looked
  split at h
  · next within =>
    cases h
    exact ⟨stop - cursor.position, Nat.zero_le _, Bytes.hasAtLeast_iff.1 within.2, rfl⟩
  · obtain ⟨_, _, _, h⟩ := state_bind_eq_ok.1 h
    cases h

theorem advances_expectAt (stop : Nat) : Advances (expectAt stop) 0 := by
  refine advances_position.later fun position => ?_
  split
  · exact advances_fail _ 0
  · exact advances_pure _

/-! ## Small structures -/

theorem advances_text : Advances text 1 := by
  refine advances_varUInt32.first fun count => advances_position.later fun start => ?_
  refine (advances_bytes count.toNat).later fun bytes => ?_
  split
  · exact advances_pure _
  · exact advances_failAt start _ 0

theorem advances_header : Advances header 4 := by
  refine advances_position.later fun start => (advances_bytes 4).first fun magic => ?_
  have version : Advances (do
      let start ← position
      let version ← word
      if version ≠ Header.version then failAt start (.unsupportedVersion version)) 0 := by
    refine advances_position.later fun start => advances_word.later fun version => ?_
    split
    · exact advances_failAt start _ 0
    · exact advances_pure _
  dsimp only
  split
  · exact (advances_failAt start _ 0).later fun _ => version
  · exact version

theorem advances_globalType : Advances globalType 1 :=
  (advances_code _).first fun _ => (advances_code _).later fun _ => advances_pure _

theorem advances_limits : Advances limits 1 := by
  refine (advances_code _).first fun flags => ?_
  refine advances_varUInt32.later fun initial => ?_
  split
  · exact (advances_varUInt32.map some).later fun _ => advances_pure _
  · exact (advances_pure none).later fun _ => advances_pure _

theorem advances_tableType : Advances tableType 1 :=
  (advances_code _).first fun _ => advances_limits.weaken (Nat.zero_le 1)

theorem advances_constantI32 : Advances constantI32 1 := by
  refine (advances_code _).first fun _ => advances_varInt32.later fun value => ?_
  exact (advances_code _).later fun _ => advances_pure value

theorem advances_skipConstant : Advances skipConstant 1 := by
  refine advances_position.later fun start => advances_byte.first fun opcode => ?_
  have ends : Advances endExpression 0 := (advances_code _).weaken (Nat.zero_le 1)
  dsimp only
  split
  · exact advances_varInt32.discard.later fun _ => ends
  · exact advances_varInt64.discard.later fun _ => ends
  · exact (advances_bytes 4).discard.later fun _ => ends
  · exact (advances_bytes 8).discard.later fun _ => ends
  · exact advances_varUInt32.discard.later fun _ => ends
  · exact advances_varUInt32.discard.later fun _ => ends
  · exact advances_byte.discard.later fun _ => ends
  · exact (advances_failAt start _ 0).later fun _ => ends

end Reader

namespace Scanner

open Reader

variable {α β : Type} {least : Nat}

/-! ## Readers of entries -/

theorem advances_segmentOwner : Advances segmentOwner 1 := by
  refine advances_position.later fun start => advances_varUInt32.first fun flags => ?_
  split
  · exact advances_pure _
  · exact advances_varUInt32.later fun _ => advances_pure _
  · exact advances_failAt start _ 0

theorem advances_indicesOnto (count : Nat) (later : List UInt32) :
    Advances (indicesOnto count later) count := by
  induction count generalizing later with
  | zero => exact advances_pure _
  | succ count ih =>
    exact (advances_varUInt32.bind fun index => ih (index :: later)).weaken (by omega)

theorem advances_indices : Advances indices 1 :=
  advances_varUInt32.first fun count => (advances_indicesOnto count.toNat []).weaken (Nat.zero_le _)

theorem advances_subsectionHeader (stop : Nat) : Advances (subsectionHeader stop) 1 := by
  refine advances_byte.first fun kind => advances_varUInt32.later fun size => ?_
  refine advances_position.later fun start => ?_
  dsimp only
  split
  · exact (advances_failAt start _ 0).later fun _ => advances_pure _
  · exact advances_pure _

theorem advances_symbolEntry : Advances symbolEntry 1 := by
  refine (advances_code _).first fun kind => advances_varUInt32.later fun bits => ?_
  have named (condition : Bool) : Advances (do
      let index ← varUInt32
      let name ← if condition then some <$> text else pure none
      return (index, name)) 0 := by
    refine advances_varUInt32.later fun index => ?_
    split
    · exact (advances_text.map some).later fun _ => advances_pure _
    · exact (advances_pure none).later fun _ => advances_pure _
  dsimp only
  split
  · exact (named _).later fun _ => advances_pure _
  · exact (named _).later fun _ => advances_pure _
  · exact (named _).later fun _ => advances_pure _
  · exact (named _).later fun _ => advances_pure _
  · refine advances_text.later fun name => ?_
    split
    · refine advances_varUInt32.later fun segment => advances_varUInt32.later fun offset => ?_
      exact advances_varUInt32.later fun size => advances_pure _
    · exact advances_pure _
  · exact advances_varUInt32.later fun position => advances_pure _

theorem advances_relocationEntry : Advances relocationEntry 1 := by
  refine (advances_code _).first fun kind => advances_varUInt32.later fun offset => ?_
  refine advances_varUInt32.later fun index => ?_
  split
  · exact advances_varInt64.later fun _ => advances_pure _
  · exact (advances_pure _).later fun _ => advances_pure _

/-! ## Steps of a scan -/

/-- When the step succeeds, it has moved forward, and what it has noted is of this kind. It has
noted no more events than the bytes it has taken and so many more. -/
def Proceeds (step : Scanner α) (kind : Event → Prop) (budget : Nat) : Prop :=
  ∀ before value after, step before = .ok value after →
    ∃ (size : Nat) (noted : List Event), size ≤ before.cursor.rest.length ∧
      after.cursor = before.cursor.advance size ∧
      after.events.toList = before.events.toList ++ noted ∧
      (∀ event ∈ noted, kind event) ∧ noted.length ≤ size + budget

variable {kind : Event → Prop} {budget : Nat} {step : Scanner α} {rest : α → Scanner β}
  {reader : Reader α}

/-- A step that leaves the cursor and the events alone. -/
theorem proceeds_of_same (same : ∀ before value after, step before = .ok value after →
    after.cursor = before.cursor ∧ after.events = before.events) :
    Proceeds step kind budget := by
  intro before value after h
  obtain ⟨cursor, events⟩ := same before value after h
  refine ⟨0, [], Nat.zero_le _, cursor, ?_, by simp, Nat.zero_le _⟩
  rw [events, List.append_nil]

theorem proceeds_pure (value : α) : Proceeds (pure value) kind budget :=
  proceeds_of_same (by rintro before _ _ ⟨⟩; exact ⟨rfl, rfl⟩)

theorem proceeds_get : Proceeds (get : Scanner Scan) kind budget :=
  proceeds_of_same (by rintro before _ _ ⟨⟩; exact ⟨rfl, rfl⟩)

theorem proceeds_modify {change : Scan → Scan}
    (same : ∀ scan, (change scan).cursor = scan.cursor ∧ (change scan).events = scan.events) :
    Proceeds (modify change) kind budget :=
  proceeds_of_same (by rintro before _ _ ⟨⟩; exact same before)

theorem proceeds_emit {event : Event} (fits : kind event) :
    Proceeds (emit event) kind (budget + 1) := by
  rintro before _ _ ⟨⟩
  refine ⟨0, [event], Nat.zero_le _, rfl, by simp, ?_, by simp⟩
  intro other member
  obtain rfl := List.mem_singleton.1 member
  exact fits

theorem Proceeds.bind (first : Proceeds step kind 0)
    (second : ∀ value, Proceeds (rest value) kind budget) :
    Proceeds (step >>= rest) kind budget := by
  intro before value after h
  obtain ⟨between, middle, one, two⟩ := state_bind_eq_ok.1 h
  obtain ⟨size, noted, within, cursor, events, kinds, few⟩ := first _ _ _ one
  obtain ⟨size', noted', within', cursor', events', kinds', few'⟩ := second _ _ _ _ two
  rw [cursor, Cursor.length_rest_advance] at within'
  refine ⟨size + size', noted ++ noted', by omega, ?_, ?_, ?_, ?_⟩
  · rw [cursor', cursor, Cursor.advance_advance]
  · rw [events', events, List.append_assoc]
  · intro event member
    rcases List.mem_append.1 member with member | member
    · exact kinds event member
    · exact kinds' event member
  · rw [List.length_append]
    omega

theorem read_eq_ok {before after : Scan} {value : α} :
    (liftM reader : Scanner α) before = .ok value after ↔
      ∃ next, reader before.cursor = .ok value next ∧ after = { before with cursor := next } := by
  show read reader before = _ ↔ _
  unfold read
  rcases reader before.cursor with ⟨found, next⟩ | ⟨fault, next⟩
  · constructor
    · rintro ⟨⟩
      exact ⟨next, rfl, rfl⟩
    · rintro ⟨_, ⟨⟩, rfl⟩
      rfl
  · constructor
    · rintro ⟨⟩
    · rintro ⟨_, ⟨⟩, _⟩

/-- The bytes that a reader takes leave room for as many events. -/
theorem Proceeds.read_bind (advances : Advances reader least)
    (second : ∀ value, Proceeds (rest value) kind (budget + least)) :
    Proceeds (liftM reader >>= rest) kind budget := by
  intro before value after h
  obtain ⟨found, middle, one, two⟩ := state_bind_eq_ok.1 h
  obtain ⟨next, read, rfl⟩ := read_eq_ok.1 one
  obtain ⟨size, enough, within, rfl⟩ := advances _ _ _ read
  obtain ⟨size', noted, within', cursor, events, kinds, few⟩ := second _ _ _ _ two
  rw [Cursor.length_rest_advance] at within'
  refine ⟨size + size', noted, by omega, ?_, events, kinds, by omega⟩
  rw [cursor, Cursor.advance_advance]

/-- As `Proceeds.read_bind`, where the events that follow need no such room. -/
theorem Proceeds.skip_bind (advances : Advances reader least)
    (second : ∀ value, Proceeds (rest value) kind budget) :
    Proceeds (liftM reader >>= rest) kind budget :=
  .read_bind (advances.weaken (Nat.zero_le least)) second

theorem proceeds_read (advances : Advances reader least) :
    Proceeds (liftM reader) kind budget := by
  intro before value after h
  obtain ⟨next, read, rfl⟩ := read_eq_ok.1 h
  obtain ⟨size, -, within, rfl⟩ := advances _ _ _ read
  exact ⟨size, [], within, rfl, by simp, by simp, Nat.zero_le _⟩

theorem proceeds_timesFrom {step : UInt32 → Scanner Unit} (each : ∀ i, Proceeds (step i) kind 0)
    (count : Nat) (first : UInt32) : Proceeds (timesFrom step count first) kind 0 := by
  induction count generalizing first with
  | zero => exact proceeds_pure ()
  | succ count ih => exact (each first).bind fun _ => ih (first + 1)

theorem proceeds_times {step : UInt32 → Scanner Unit} (each : ∀ i, Proceeds (step i) kind 0)
    (count : UInt32) : Proceeds (times count step) kind 0 :=
  proceeds_timesFrom each count.toNat 0

/-! ## Entries -/

/-- The entries of a section of this kind. -/
abbrev Entries (id : SectionId) (step : Scanner Unit) : Prop :=
  Proceeds step (fun event => event.home = some id) 0

theorem entries_importEntry : Entries .imports importEntry := by
  refine .read_bind advances_text fun module => .skip_bind advances_text fun field => ?_
  refine .skip_bind advances_position fun start => .skip_bind (advances_code _) fun kind => ?_
  have counted (change : Scan → Scan) (event : Event) (fits : event.home = some .imports)
      (same : ∀ scan, (change scan).cursor = scan.cursor ∧ (change scan).events = scan.events) :
      Proceeds (do modify change; emit event) (fun event => event.home = some .imports) 1 :=
    (proceeds_modify same).bind fun _ => proceeds_emit fits
  split
  · refine .skip_bind advances_varUInt32 fun typeIndex => proceeds_get.bind fun scan => ?_
    exact counted _ _ rfl fun _ => ⟨rfl, rfl⟩
  · refine .skip_bind advances_tableType fun limits => proceeds_get.bind fun scan => ?_
    exact counted _ _ rfl fun _ => ⟨rfl, rfl⟩
  · refine .skip_bind advances_limits fun limits => proceeds_get.bind fun scan => ?_
    exact counted _ _ rfl fun _ => ⟨rfl, rfl⟩
  · refine .skip_bind advances_globalType fun type => proceeds_get.bind fun scan => ?_
    exact counted _ _ rfl fun _ => ⟨rfl, rfl⟩
  · exact proceeds_read (advances_failAt start _ 0)

theorem entries_exportEntry : Entries .exports exportEntry := by
  refine .read_bind advances_text fun name => .skip_bind (advances_code _) fun kind => ?_
  exact .skip_bind advances_varUInt32 fun index => proceeds_emit rfl

theorem entries_elementSegment (index : UInt32) : Entries .elements (elementSegment index) := by
  refine .read_bind advances_segmentOwner fun owner => ?_
  refine .skip_bind advances_constantI32 fun offset => ?_
  dsimp only
  split
  · refine .skip_bind (advances_code _) fun _ => .skip_bind advances_indices fun functions => ?_
    exact proceeds_emit rfl
  · exact .skip_bind advances_indices fun functions => proceeds_emit rfl

theorem entries_dataSegment (index : UInt32) : Entries .data (dataSegment index) := by
  refine .read_bind advances_segmentOwner fun owner => ?_
  refine .skip_bind advances_constantI32 fun offset => .skip_bind advances_varUInt32 fun size => ?_
  exact .skip_bind (advances_span _) fun span => proceeds_emit rfl

theorem entries_vectorEntries (id : SectionId) (count : UInt32) (stop : Nat) :
    Entries id (vectorEntries id count stop) := by
  cases id with
  | types => exact proceeds_read (advances_advanceTo stop)
  | code => exact proceeds_read (advances_advanceTo stop)
  | imports => exact proceeds_times (fun _ => entries_importEntry) count
  | functions =>
    refine proceeds_times (fun i => ?_) count
    exact .read_bind advances_varUInt32 fun _ => proceeds_get.bind fun _ => proceeds_emit rfl
  | tables =>
    refine proceeds_times (fun i => ?_) count
    exact .read_bind advances_tableType fun _ => proceeds_get.bind fun _ => proceeds_emit rfl
  | memories =>
    refine proceeds_times (fun i => ?_) count
    exact .read_bind advances_limits fun _ => proceeds_get.bind fun _ => proceeds_emit rfl
  | globals =>
    refine proceeds_times (fun i => ?_) count
    refine .read_bind advances_globalType fun _ => .skip_bind advances_skipConstant fun _ => ?_
    exact proceeds_get.bind fun _ => proceeds_emit rfl
  | exports => exact proceeds_times (fun _ => entries_exportEntry) count
  | elements => exact proceeds_times entries_elementSegment count
  | data => exact proceeds_times entries_dataSegment count
  | custom => exact proceeds_pure ()
  | start => exact proceeds_pure ()
  | dataCount => exact proceeds_pure ()

/-! ## Subsections -/

theorem proceeds_subsectionsUpTo {entries : UInt8 → Nat → Scanner Unit}
    (each : ∀ name stop, Proceeds (entries name stop) kind 0) (stop limit : Nat) :
    Proceeds (subsectionsUpTo stop entries limit) kind 0 := by
  induction limit with
  | zero => exact proceeds_pure ()
  | succ limit ih =>
    refine .skip_bind advances_position fun position => ?_
    split
    · refine .skip_bind (advances_subsectionHeader stop) fun header => ?_
      refine (each header.1 header.2).bind fun _ => ?_
      exact .skip_bind (advances_expectAt header.2) fun _ => ih
    · exact proceeds_pure ()

theorem proceeds_subsections {entries : UInt8 → Nat → Scanner Unit}
    (each : ∀ name stop, Proceeds (entries name stop) kind 0) (stop : Nat) :
    Proceeds (subsections stop entries) kind 0 :=
  .skip_bind advances_position fun position => proceeds_subsectionsUpTo each stop (stop - position)

/-- A count and as many entries. -/
theorem proceeds_counted {step : UInt32 → Scanner Unit} (each : ∀ i, Proceeds (step i) kind 0) :
    Proceeds (do times (← Reader.varUInt32) step) kind 0 :=
  .skip_bind advances_varUInt32 fun count => proceeds_times each count

theorem entries_nameEntries (kind : UInt8) (stop : Nat) :
    Entries .custom (nameEntries kind stop) := by
  unfold nameEntries
  split
  · refine proceeds_counted fun _ => .read_bind advances_varUInt32 fun index => ?_
    exact .skip_bind advances_text fun name => proceeds_emit rfl
  · exact proceeds_read (advances_advanceTo stop)

theorem entries_segmentInfo (index : UInt32) : Entries .custom (segmentInfo index) := by
  refine .read_bind advances_text fun name => .skip_bind advances_position fun start => ?_
  refine .skip_bind advances_varUInt32 fun alignment => ?_
  have flags : Proceeds (do
      let flags ← Reader.varUInt32
      emit (.segmentInfo index name alignment flags))
      (fun event => event.home = some .custom) 1 :=
    .skip_bind advances_varUInt32 fun flags => proceeds_emit rfl
  dsimp only
  split
  · exact .skip_bind (advances_failAt start _ 0) fun _ => flags
  · exact flags

theorem entries_linkingEntries (kind : UInt8) (stop : Nat) :
    Entries .custom (linkingEntries kind stop) := by
  unfold linkingEntries
  split
  · exact proceeds_counted entries_segmentInfo
  · refine proceeds_counted fun _ => .read_bind advances_varUInt32 fun priority => ?_
    exact .skip_bind advances_varUInt32 fun symbol => proceeds_emit rfl
  · exact proceeds_counted fun index => .read_bind advances_symbolEntry fun _ => proceeds_emit rfl
  · exact proceeds_read (advances_advanceTo stop)

theorem entries_linkingSection (stop : Nat) : Entries .custom (linkingSection stop) := by
  refine .skip_bind advances_position fun start => .skip_bind advances_varUInt32 fun version => ?_
  have entries := proceeds_subsections entries_linkingEntries stop
  dsimp only
  split
  · exact .skip_bind (advances_failAt start _ 0) fun _ => entries
  · exact entries

theorem entries_relocationSection : Entries .custom relocationSection := by
  refine .skip_bind advances_varUInt32 fun target => proceeds_counted fun _ => ?_
  exact .read_bind advances_relocationEntry fun relocation => proceeds_emit rfl

theorem entries_customEntries (name : String) (stop : Nat) :
    Entries .custom (customEntries name stop) := by
  unfold customEntries
  split
  · exact entries_linkingSection stop
  · exact proceeds_subsections entries_nameEntries stop
  · exact entries_relocationSection
  · exact proceeds_read (advances_advanceTo stop)

end Scanner

end StaticLink
