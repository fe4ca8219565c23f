import StaticLink.Proofs.SymbolTable.Permanence

/-!
# Registering a symbol twice

A symbol that was accepted is accepted again, and then nothing changes: it meets itself, a
definition that it gave way to, or a reference that it has made a strong one.

* `Symbol.merge_self`, `Symbol.merge_strengthened`: what a symbol left behind stays when it arrives
  once more.
* `SymbolTable.exists_kept_of_adds`: what stands for a name after a symbol was accepted.
* `SymbolTable.add_again`: a registration that is repeated.
-/

namespace StaticLink

namespace Symbol

/-- A symbol does not conflict with itself. -/
theorem merge_self (symbol : Symbol) : symbol.merge symbol = .ok .keep := by
  refine merge_eq_keep_iff.2 ⟨rfl, ?_⟩
  cases undefined : symbol.isUndefined with
  | false => exact .inr ⟨rfl, rfl, .inr rfl⟩
  | true =>
    refine .inl ⟨rfl, .inr ?_⟩
    cases symbol.isWeak with
    | false => exact .inl rfl
    | true => exact .inr rfl

/-- A reference that is no longer weak has nothing left to lose. -/
theorem merge_strengthened {existing incoming : Symbol}
    (merged : existing.merge incoming = .ok .strengthen) :
    existing.strengthened.merge incoming = .ok .keep := by
  obtain ⟨kinds, reference, -, -, -⟩ := merge_eq_strengthen_iff.1 merged
  exact merge_eq_keep_iff.2
    ⟨kinds, .inl ⟨reference, .inr (.inl (isWeak_strengthened existing))⟩⟩

end Symbol

namespace SymbolTable

variable {table next : SymbolTable} {symbol : Symbol} {id : SymbolId}

/-- The record of a symbol that was accepted stays when the symbol arrives once more. -/
theorem exists_kept_of_adds (adds : Adds table symbol id next) :
    next.lookup symbol.name = some id ∧
      ∃ existing, next.records[id]? = some existing ∧ existing.merge symbol = .ok .keep := by
  cases adds with
  | introduced new =>
    refine ⟨?_, symbol, ?_, symbol.merge_self⟩
    · rw [lookup_introduce, new, if_pos rfl]
      rfl
    · rw [records_introduce, Array.getElem?_push_size]
  | kept known found merged => exact ⟨known, _, found, merged⟩
  | @strengthened _ existing known found merged =>
    refine ⟨known, existing.strengthened, ?_, Symbol.merge_strengthened merged⟩
    rw [replace, Array.getElem?_setIfInBounds_self_of_lt (lt_size_of_getElem? found)]
  | replaced known found merged =>
    refine ⟨?_, symbol, ?_, symbol.merge_self⟩
    · rw [lookup_resolve, known]
    · rw [records_resolve, Array.getElem?_setIfInBounds_self_of_lt (lt_size_of_getElem? found)]

/-- A symbol that was just accepted, whatever was registered before it, is accepted again under the
same id, and the table stays exactly as it is: records, names, and the order of the symbols that the
linker supplies. -/
theorem add_again (accepted : table.add symbol = .ok (id, next)) :
    next.add symbol = .ok (id, next) := by
  obtain ⟨known, existing, found, kept⟩ := exists_kept_of_adds (adds_of_add_eq_ok accepted)
  rw [add_of_lookup known found, kept]
  rfl

/-- A weak reference, two functions that the linker supplies, and a local symbol. -/
def mixture : List Registration :=
  [.shared ⟨"f", .weak, "a.o", .function (.undefined 0 0)⟩,
    .shared ⟨"g", .hidden, Symbol.linkerContext, .function (.synthesized (.trapStub 0 1))⟩,
    .own ⟨"f", .localBinding, "b.o", .function (.defined 1 0)⟩,
    .shared ⟨"h", .hidden, Symbol.linkerContext, .function (.synthesized (.trapStub 0 2))⟩]

/-- A strong reference to the name of the weak one. -/
def latecomer : Symbol := ⟨"f", .empty, "c.o", .function (.undefined 2 0)⟩

/-- The record that stands for the name is neither what it was before nor the symbol that arrives,
and the symbol is accepted once more. -/
theorem add_again_latecomer :
    let once := (empty.run mixture).after (.shared latecomer)
    (empty.run mixture).add latecomer = .ok (0, once) ∧
      once.records[0]? = some ⟨"f", .empty, "a.o", .function (.undefined 0 0)⟩ ∧
      once.syntheticFunctions = [1, 3] ∧ once.add latecomer = .ok (0, once) := by
  intro once
  have accepted : (empty.run mixture).add latecomer = .ok (0, once) := rfl
  exact ⟨accepted, rfl, rfl, add_again accepted⟩

end SymbolTable

end StaticLink
