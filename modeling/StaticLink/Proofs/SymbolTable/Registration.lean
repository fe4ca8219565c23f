import Mathlib.Data.List.Nodup
import StaticLink.Symbol.Table

/-!
# Registration, one call at a time

What a single registration does to the symbol table, in the form that all proofs about runs of
registrations start from.

* `Symbol.merge_eq_keep_iff`, `Symbol.merge_eq_strengthen_iff`, `Symbol.merge_eq_replace_iff`,
  `Symbol.merge_eq_error_iff`: when a record stays, loses its weak flag, is replaced, or stands in
  the way.
* `SymbolTable.Adds`: the four ways in which a non-local symbol is accepted;
  `SymbolTable.adds_of_add_eq_ok` says that there are no others.
* `SymbolTable.synthetic`: the three lists of synthesized symbols as one list for each kind.
-/

namespace StaticLink

namespace Symbol

/-! ## The weak flag -/

/-- The weak flag is the lowest bit of the flag word. -/
theorem isWeak_eq_getLsbD (symbol : Symbol) :
    symbol.isWeak = symbol.flags.bits.toBitVec.getLsbD 0 := by
  have low (bits : UInt32) : (bits &&& 1 == 1) = bits.toBitVec.getLsbD 0 := by
    have single : (bits &&& 1).toBitVec =
        BitVec.setWidth 32 (BitVec.ofBool (bits.toBitVec.getLsbD 0)) := by
      rw [UInt32.toBitVec_and]
      exact BitVec.and_one_eq_setWidth_ofBool_getLsbD
    -- What the mask leaves is the lowest bit, so that there are two words to compare.
    rw [Bool.eq_iff_iff, beq_iff_eq, ← UInt32.toBitVec_inj, single]
    cases bits.toBitVec.getLsbD 0 <;> decide
  exact low symbol.flags.bits

theorem toBitVec_strengthened (symbol : Symbol) :
    symbol.strengthened.flags.bits.toBitVec = symbol.flags.bits.toBitVec &&& ~~~1#32 := rfl

@[simp] theorem isWeak_strengthened (symbol : Symbol) : symbol.strengthened.isWeak = false := by
  rw [isWeak_eq_getLsbD, toBitVec_strengthened]
  simp

/-- Clearing the weak flag changes nothing where it is not set. -/
theorem strengthened_of_strong {symbol : Symbol} (strong : symbol.isWeak = false) :
    symbol.strengthened = symbol := by
  rw [isWeak_eq_getLsbD] at strong
  have same : symbol.strengthened.flags.bits = symbol.flags.bits := by
    rw [← UInt32.toBitVec_inj, toBitVec_strengthened]
    apply BitVec.eq_of_getLsbD_eq
    intro i small
    -- The mask clears the lowest bit only, which is not set.
    by_cases first : i = 0
    · subst first
      simp only [BitVec.getLsbD_and, strong, Bool.false_and]
    · rw [BitVec.getLsbD_and, BitVec.getLsbD_not, BitVec.getLsbD_one]
      simp [small, first]
  exact congrArg (fun bits => { symbol with flags := ⟨bits⟩ }) same

@[simp] theorem target_strengthened (symbol : Symbol) :
    symbol.strengthened.target = symbol.target := rfl

/-! ## Merging two symbols of one name -/

/-- Whether the symbol is a definition, by an input or by the linker. -/
def isDefinition (symbol : Symbol) : Bool := !symbol.isUndefined

/-- Whether the symbol is a definition that gives way to no other. -/
def isStrongDefinition (symbol : Symbol) : Bool := symbol.isDefinition && !symbol.isWeak

variable {existing incoming : Symbol}

/-- Symbols of one name that are merged are of one kind. -/
theorem kind_eq_of_merge_eq_ok {merge : Merge} (merged : existing.merge incoming = .ok merge) :
    existing.target.kind = incoming.target.kind := by
  unfold Symbol.merge at merged
  by_contra other
  rw [if_pos other] at merged
  cases merged

theorem merge_eq_keep_iff :
    existing.merge incoming = .ok .keep ↔
      existing.target.kind = incoming.target.kind ∧
        (incoming.isUndefined = true ∧ (existing.isUndefined = false ∨ existing.isWeak = false ∨
            incoming.isWeak = true) ∨
          incoming.isUndefined = false ∧ existing.isUndefined = false ∧
            (incoming.isWeak = true ∨ existing.target = incoming.target)) := by
  unfold merge
  grind

theorem merge_eq_strengthen_iff :
    existing.merge incoming = .ok .strengthen ↔
      existing.target.kind = incoming.target.kind ∧ incoming.isUndefined = true ∧
        existing.isUndefined = true ∧ existing.isWeak = true ∧ incoming.isWeak = false := by
  unfold merge
  grind

theorem merge_eq_replace_iff :
    existing.merge incoming = .ok .replace ↔
      existing.target.kind = incoming.target.kind ∧ incoming.isUndefined = false ∧
        (existing.isUndefined = true ∨ existing.isUndefined = false ∧ incoming.isWeak = false ∧
          existing.target ≠ incoming.target ∧ existing.isWeak = true) := by
  unfold merge
  grind

theorem merge_eq_error_iff {error : Error} :
    existing.merge incoming = .error error ↔
      existing.target.kind ≠ incoming.target.kind ∧
          error = .kindMismatch incoming.name existing.context existing.target.kind
            incoming.context incoming.target.kind ∨
        existing.target.kind = incoming.target.kind ∧ existing.isStrongDefinition = true ∧
          incoming.isStrongDefinition = true ∧ existing.target ≠ incoming.target ∧
          error = .symbolConflict incoming.name existing.context incoming.context := by
  unfold merge isStrongDefinition isDefinition
  grind

end Symbol

namespace SymbolTable

variable {table next : SymbolTable} {symbol : Symbol} {id : SymbolId}

/-! ## The lists of synthesized symbols -/

/-- The synthesized symbols of one kind. -/
def synthetic (table : SymbolTable) : Target.Kind → List SymbolId
  | .function => table.syntheticFunctions
  | .global => table.syntheticGlobals
  | .data => table.syntheticData

@[simp] theorem records_listSynthetic (table : SymbolTable) (id : SymbolId) (target : Target) :
    (table.listSynthetic id target).records = table.records := by
  unfold listSynthetic
  split <;> rfl

@[simp] theorem names_listSynthetic (table : SymbolTable) (id : SymbolId) (target : Target) :
    (table.listSynthetic id target).names = table.names := by
  unfold listSynthetic
  split <;> rfl

/-- An id is taken off the lists where it was and put at the end of the one where it belongs. -/
theorem synthetic_listSynthetic (table : SymbolTable) (id : SymbolId) (target : Target)
    (kind : Target.Kind) :
    (table.listSynthetic id target).synthetic kind =
      (table.synthetic kind).erase id ++
        if target.isSynthesized = true ∧ target.kind = kind then [id] else [] := by
  rcases target with (_ | _ | _) | (_ | _ | _) | (_ | _ | _) <;> cases kind <;>
    simp [listSynthetic, synthetic, Target.isSynthesized, Target.kind]

@[simp] theorem synthetic_replace (table : SymbolTable) (id : SymbolId) (symbol : Symbol)
    (kind : Target.Kind) : (table.replace id symbol).synthetic kind = table.synthetic kind := by
  cases kind <;> rfl

theorem nodup_synthetic_listSynthetic (target : Target)
    (nodup : ∀ kind, (table.synthetic kind).Nodup) (kind : Target.Kind) :
    ((table.listSynthetic id target).synthetic kind).Nodup := by
  rw [synthetic_listSynthetic]
  have erased : id ∉ (table.synthetic kind).erase id := (nodup kind).not_mem_erase
  -- The id was taken off the list before it is put at the end.
  split
  · rw [← List.concat_eq_append]
    exact ((nodup kind).erase id).concat erased
  · simpa using (nodup kind).erase id

theorem mem_synthetic_listSynthetic {target : Target} {other : SymbolId} {kind : Target.Kind}
    (nodup : ∀ kind, (table.synthetic kind).Nodup) :
    other ∈ (table.listSynthetic id target).synthetic kind ↔
      if other = id then target.isSynthesized = true ∧ target.kind = kind
      else other ∈ table.synthetic kind := by
  rw [synthetic_listSynthetic, List.mem_append, (nodup kind).mem_erase_iff]
  by_cases same : other = id <;> by_cases listed : target.isSynthesized = true ∧ target.kind = kind
    <;> simp [same, listed]

/-! ## The ways in which a symbol is accepted -/

/-- The table with a record for a name that it did not know. -/
def introduce (table : SymbolTable) (symbol : Symbol) : SymbolTable :=
  { (table.allocate symbol).2 with names := table.names.push (symbol.name, table.records.size) }

/-- The table with `symbol` for the record of `id`, which keeps its name. -/
def resolve (table : SymbolTable) (id : SymbolId) (symbol : Symbol) : SymbolTable :=
  (table.replace id symbol).listSynthetic id symbol.target

/-- A non-local symbol is accepted: this record stands for its name in the table that results. -/
inductive Adds (table : SymbolTable) (symbol : Symbol) : SymbolId → SymbolTable → Prop
  /-- The first symbol of its name. -/
  | introduced (new : table.lookup symbol.name = none) :
    Adds table symbol table.records.size (table.introduce symbol)
  /-- The record of the name stays as it is. -/
  | kept {id : SymbolId} {existing : Symbol} (known : table.lookup symbol.name = some id)
      (found : table.records[id]? = some existing)
      (merged : existing.merge symbol = .ok .keep) :
    Adds table symbol id table
  /-- The record of the name is a weak reference, and `symbol` is a strong one. -/
  | strengthened {id : SymbolId} {existing : Symbol}
      (known : table.lookup symbol.name = some id)
      (found : table.records[id]? = some existing)
      (merged : existing.merge symbol = .ok .strengthen) :
    Adds table symbol id (table.replace id existing.strengthened)
  /-- The symbol takes the place of the record of its name. -/
  | replaced {id : SymbolId} {existing : Symbol} (known : table.lookup symbol.name = some id)
      (found : table.records[id]? = some existing)
      (merged : existing.merge symbol = .ok .replace) :
    Adds table symbol id (table.resolve id symbol)

/-- `add` in the case of a name that has a record. -/
theorem add_of_lookup {existing : Symbol} (known : table.lookup symbol.name = some id)
    (found : table.records[id]? = some existing) :
    table.add symbol = (existing.merge symbol).map fun
      | .keep => (id, table)
      | .strengthen => (id, table.replace id existing.strengthened)
      | .replace => (id, table.resolve id symbol) := by
  have present : table.get id = .ok existing := existing_eq_ok.2 found
  unfold add
  -- The name has a record, so that all depends on the merge.
  simp only [known, present]
  change (existing.merge symbol >>= _) = _
  rcases existing.merge symbol with error | merge
  · rfl
  · cases merge <;> rfl

theorem add_of_lookup_eq_none (new : table.lookup symbol.name = none) :
    table.add symbol = .ok (table.records.size, table.introduce symbol) := by
  unfold add
  simp only [new]
  have names : (table.allocate symbol).2.names = table.names := names_listSynthetic _ _ _
  unfold introduce
  rw [← names]
  rfl

/-- There are no other ways in which a symbol is accepted. -/
theorem adds_of_add_eq_ok (h : table.add symbol = .ok (id, next)) : Adds table symbol id next := by
  rcases known : table.lookup symbol.name with _ | place
  · rw [add_of_lookup_eq_none known] at h
    cases h
    exact .introduced known
  · rcases found : table.records[place]? with _ | existing
    · -- Without a record behind the name nothing is accepted.
      have dangling : table.get place = .error .dangling := by rw [get, found]; rfl
      unfold add at h
      simp only [known, dangling] at h
      cases h
    · rw [add_of_lookup known found] at h
      rcases merged : existing.merge symbol with error | merge
      · rw [merged] at h
        cases h
      · rw [merged] at h
        cases merge with
        | keep => cases h; exact .kept known found merged
        | strengthen => cases h; exact .strengthened known found merged
        | replace => cases h; exact .replaced known found merged

/-! ## Runs of registrations -/

/-- A call that registers a symbol. -/
inductive Registration
  /-- A symbol that is merged with the others of its name. -/
  | shared (symbol : Symbol)
  /-- A symbol that is private to its input. -/
  | own (symbol : Symbol)
deriving DecidableEq, Repr

/-- The outcome of a registration: the id of the record, and the table that results. -/
def register (table : SymbolTable) : Registration → Except Error (SymbolId × SymbolTable)
  | .shared symbol => table.add symbol
  | .own symbol => .ok (table.addLocal symbol)

/-- The table after a registration, whether it is accepted or not. -/
def after (table : SymbolTable) (call : Registration) : SymbolTable :=
  match table.register call with
  | .ok (_, next) => next
  | .error _ => table

/-- The table after some registrations, of which any may fail. -/
def run (table : SymbolTable) (calls : List Registration) : SymbolTable := calls.foldl after table

theorem run_append (table : SymbolTable) (earlier later : List Registration) :
    table.run (earlier ++ later) = (table.run earlier).run later := List.foldl_append

/-- A registration leaves the table alone, adds a non-local symbol or gives one a record of its
own. -/
theorem after_cases (table : SymbolTable) (call : Registration) :
    table.after call = table ∨
      (∃ symbol id next, call = .shared symbol ∧ Adds table symbol id next ∧
        table.after call = next) ∨
      ∃ symbol, call = .own symbol ∧ table.after call = (table.addLocal symbol).2 := by
  cases call with
  | own symbol => exact .inr (.inr ⟨symbol, rfl, rfl⟩)
  | shared symbol =>
    rcases outcome : table.add symbol with error | ⟨id, next⟩
    · left
      simp only [after, register, outcome]
    · right
      left
      refine ⟨symbol, id, next, rfl, adds_of_add_eq_ok outcome, ?_⟩
      simp only [after, register, outcome]

end SymbolTable

end StaticLink
