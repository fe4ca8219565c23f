import StaticLink.Proofs.Inputs.Bounds

/-!
# The symbols of imports

An import stands for the symbol of an entry of the symbol table. Where several entries name the
same import, the last of them counts.

* `SymbolEntry.LastFor`: an entry is the last one for an import.
* `ObjectModule.NamesImports`: the imports of a module have the symbols of these entries.
-/

namespace StaticLink

namespace SymbolEntry

variable {entries : List SymbolEntry} {entry : SymbolEntry} {index : UInt32} {i : Nat}

/-- Entry `i` stands for function import `index`, and no later one does. -/
def LastFor (entries : List SymbolEntry) (index : UInt32) (i : Nat) : Prop :=
  (∃ entry, entries[i]? = some entry ∧ entry.import? = some index) ∧
    ∀ (j : Nat) (entry : SymbolEntry), i < j → entries[j]? = some entry →
      entry.import? ≠ some index

theorem LastFor.unique {j : Nat} (one : LastFor entries index i) (two : LastFor entries index j) :
    i = j := by
  obtain ⟨⟨entry, here, stands⟩, last⟩ := one
  obtain ⟨⟨entry', here', stands'⟩, last'⟩ := two
  rcases Nat.lt_trichotomy i j with before | equal | behind
  · exact absurd stands' (last j entry' before here')
  · exact equal
  · exact absurd stands (last' i entry behind here)

/-- An entry that stands for an import is the last one for it until another one comes. -/
theorem lastFor_append (stands : entry.import? = some index) :
    LastFor (entries ++ [entry]) index entries.length := by
  refine ⟨⟨entry, List.getElem?_concat_length, stands⟩, ?_⟩
  intro j other behind here
  have small := (List.getElem?_eq_some_iff.1 here).1
  rw [List.length_append, List.length_singleton] at small
  omega

theorem LastFor.append (last : LastFor entries index i) (other : entry.import? ≠ some index) :
    LastFor (entries ++ [entry]) index i := by
  obtain ⟨⟨found, here, stands⟩, later⟩ := last
  have small := (List.getElem?_eq_some_iff.1 here).1
  refine ⟨⟨found, by rw [List.getElem?_append_left small, here], stands⟩, ?_⟩
  intro j next behind there
  rw [List.getElem?_append] at there
  split at there
  · exact later j next behind there
  · rw [List.getElem?_singleton] at there
    split at there
    · cases there
      exact other
    · cases there

/-- An entry without a symbol stands for no import. -/
theorem import?_of_targetKind? (unnamed : entry.targetKind? = none) : entry.import? = none := by
  cases entry with
  | function => cases unnamed
  | _ => rfl

end SymbolEntry

namespace ObjectModule

variable {module old new : ObjectModule} {entries : List SymbolEntry} {index : UInt32}

/-- The symbol that function import `index` stands for. -/
def importSymbol? (module : ObjectModule) (index : UInt32) : Option SymbolId :=
  (module.functionImports[index.toNat]?).bind (·.symbol)

/-- A new import stands for no symbol yet. -/
theorem importSymbol?_push (found : FunctionImport) (fresh : found.symbol = none) :
    importSymbol? { module with functionImports := module.functionImports.push found } =
      module.importSymbol? := by
  funext index
  unfold importSymbol?
  rw [Array.getElem?_push]
  split
  · next last =>
    rw [last, Array.getElem?_eq_none (Nat.le_refl _)]
    exact fresh
  · rfl

/-- A symbol that names an import becomes the one that this import stands for. -/
theorem importSymbol?_nameImport {target : Target} {id other : SymbolId}
    (h : (module.nameImport target id).importSymbol? index = some other) :
    target.import? = some index ∧ id = other ∨
      target.import? ≠ some index ∧ module.importSymbol? index = some other := by
  unfold nameImport at h
  split at h
  · next owner position =>
    unfold importSymbol? at h
    dsimp only at h
    rw [Array.getElem?_modify] at h
    by_cases same : position = index
    · rw [if_pos (congrArg UInt32.toNat same)] at h
      rcases found : module.functionImports[index.toNat]? with _ | found
      · rw [found] at h
        cases h
      · rw [found] at h
        exact .inl ⟨congrArg some same, Option.some.inj h⟩
    · rw [if_neg (fun equal => same (UInt32.toNat_inj.1 equal))] at h
      exact .inr ⟨fun equal => same (Option.some.inj equal), h⟩
  · exact .inr ⟨by simp [Target.import?], h⟩
  · next notFunction _ =>
    refine .inr ⟨?_, h⟩
    intro stands
    unfold Target.import? at stands
    split at stands
    · exact notFunction _ _ rfl
    · cases stands

/-- The imports of the module have the symbols of the last entries for them. -/
def NamesImports (module : ObjectModule) (entries : List SymbolEntry) : Prop :=
  ∀ index id, module.importSymbol? index = some id →
    ∃ i, SymbolEntry.LastFor entries index i ∧ module.slots[i]? = some (.symbol id)

namespace NamesImports

theorem later (names : old.NamesImports entries) (slots : new.slots = old.slots)
    (imports : new.importSymbol? = old.importSymbol?) : new.NamesImports entries := by
  intro index id stands
  rw [imports] at stands
  obtain ⟨i, last, here⟩ := names index id stands
  exact ⟨i, last, by rw [slots, here]⟩

/-- An entry more gives its symbol to the import that it stands for. -/
theorem push {entry : SymbolEntry} {slot : Slot} (names : old.NamesImports entries)
    (size : old.slots.size = entries.length) (slots : new.slots = old.slots)
    (imports : ∀ index id, new.importSymbol? index = some id →
      entry.import? = some index ∧ slot = .symbol id ∨
        entry.import? ≠ some index ∧ old.importSymbol? index = some id) :
    { new with slots := new.slots.push slot }.NamesImports (entries ++ [entry]) := by
  intro index id stands
  show ∃ i, _ ∧ (new.slots.push slot)[i]? = _
  rw [slots]
  rcases imports index id stands with ⟨last, rfl⟩ | ⟨other, before⟩
  · refine ⟨entries.length, SymbolEntry.lastFor_append last, ?_⟩
    rw [← size, Array.getElem?_push_size]
  · obtain ⟨i, last, here⟩ := names index id before
    have small := (Array.getElem?_eq_some_iff.1 here).1
    refine ⟨i, last.append other, ?_⟩
    rw [Array.getElem?_push, if_neg (Nat.ne_of_lt small), here]

end NamesImports

end ObjectModule

end StaticLink
