import Mathlib.Data.List.Perm.Subperm
import StaticLink.Proofs.Inputs.Sizes

/-!
# The exports of the linked module

Whatever is exported besides the memory is a function or a global that a symbol stands for, and no
name is exported twice.

* `Program.NamesSymbol`: a name of an export.
* `Program.length_exports_le`: there are no more exports than symbols, and one for the memory.
* `Program.exports_of_interface`: the interface has the exports that the options ask for.
-/

namespace StaticLink.Program

variable {program : Program} {name : String} {id : SymbolId}
  {found : String × ExternalKind × Nat} {exports : List (String × ExternalKind × Nat)}

/-- A function or a global has this name. -/
def NamesSymbol (program : Program) (name : String) : Prop :=
  ∃ (id : SymbolId) (record : Symbol), program.symbols.records[id]? = some record ∧ record.name = name ∧
    record.target.kind ≠ .data

theorem namesSymbol_of_definedFunction? (wf : program.symbols.WellFormed)
    (h : program.definedFunction? name = some id) : program.NamesSymbol name := by
  obtain ⟨known, own⟩ := Option.filter_eq_some_iff.1 h
  obtain ⟨record, here, rfl⟩ := wf.named name id known
  rw [here, Option.any_some] at own
  refine ⟨id, record, here, rfl, fun data => ?_⟩
  unfold Target.hasOwnBody at own
  split at own
  · next target => rw [target] at data; cases data
  · next target => rw [target] at data; cases data
  · cases own

theorem name_of_functionExport (h : program.functionExport name id = .ok found) :
    found.1 = name := by
  obtain ⟨index, -, rfl⟩ := return_eq_ok.1 h
  rfl

theorem namesSymbol_of_entryPointExports (wf : program.symbols.WellFormed)
    (h : program.entryPointExports = .ok exports) (member : found ∈ exports) :
    program.NamesSymbol found.1 := by
  obtain ⟨place, here⟩ := List.mem_iff_getElem?.1 member
  obtain ⟨id, listed, one⟩ := exists_item_of_mapM_eq_ok h here
  rw [name_of_functionExport one]
  exact namesSymbol_of_definedFunction? wf (Option.mem_toList.1 (List.mem_of_getElem? listed))

theorem namesSymbol_of_flaggedExports (wf : program.symbols.WellFormed)
    (h : program.flaggedExports = .ok exports) (member : found ∈ exports) :
    program.NamesSymbol found.1 := by
  obtain ⟨place, here⟩ := List.mem_iff_getElem?.1 member
  obtain ⟨⟨id, symbol⟩, listed, one⟩ := exists_item_of_mapM_eq_ok h here
  have flagged := List.mem_filter.1 (List.mem_of_getElem? listed)
  have stands := (wf.lookup_of_mem_symbols flagged.1).2
  have kind : symbol.target.kind ≠ .data := by
    have all := flagged.2
    simp only [Bool.and_eq_true, bne_iff_ne] at all
    exact all.2
  have name : found.1 = symbol.name := by
    dsimp only at one
    split at one
    · obtain ⟨_, -, rfl⟩ := return_eq_ok.1 one
      rfl
    · exact name_of_functionExport one
  exact ⟨id, symbol, stands, name.symm, kind⟩

theorem namesSymbol_of_requestedExports (wf : program.symbols.WellFormed) {names : List String}
    (h : program.requestedExports names = .ok exports) (member : found ∈ exports) :
    program.NamesSymbol found.1 := by
  obtain ⟨place, here⟩ := List.mem_iff_getElem?.1 member
  obtain ⟨name, -, one⟩ := exists_item_of_mapM_eq_ok h here
  split at one
  · next id known =>
    rw [name_of_functionExport one]
    exact namesSymbol_of_definedFunction? wf known
  · cases one

theorem length_exports_le (wf : program.symbols.WellFormed) {names : List String}
    (h : program.exports names = .ok exports) : exports.length ≤ program.symbols.linked + 1 := by
  obtain ⟨entryPoint, one, h⟩ := bind_eq_ok.1 h
  obtain ⟨flagged, two, h⟩ := bind_eq_ok.1 h
  obtain ⟨requested, three, rfl⟩ := return_eq_ok.1 h
  let nameOf (id : SymbolId) : String := (program.symbols.records[id]?).elim "" (·.name)
  let ids := program.symbols.idsOf .function ++ program.symbols.idsOf .global
  have subset : (firstOfKeys ((memoryName, ExternalKind.memory, 0) :: entryPoint ++ flagged ++
      requested)).map (·.1) ⊆ memoryName :: ids.map nameOf := by
    intro name member
    obtain ⟨found, listed, rfl⟩ := List.mem_map.1 (mem_keys_firstOfKeys.1 member)
    have named (names : program.NamesSymbol found.1) : found.1 ∈ memoryName :: ids.map nameOf := by
      obtain ⟨id, record, here, same, kind⟩ := names
      refine List.mem_cons_of_mem _ (List.mem_map.2 ⟨id, ?_, ?_⟩)
      · rcases which : record.target.kind with _ | _ | _
        · exact List.mem_append_left _ (SymbolTable.mem_idsOf.2 ⟨record, here, which⟩)
        · exact List.mem_append_right _ (SymbolTable.mem_idsOf.2 ⟨record, here, which⟩)
        · exact absurd which kind
      · show (program.symbols.records[id]?).elim "" (·.name) = found.1
        rw [here, Option.elim_some, same]
    rcases List.mem_append.1 listed with listed | listed
    · rcases List.mem_append.1 listed with listed | listed
      · rcases List.mem_cons.1 listed with rfl | listed
        · exact List.mem_cons_self
        · exact named (namesSymbol_of_entryPointExports wf one listed)
      · exact named (namesSymbol_of_flaggedExports wf two listed)
    · exact named (namesSymbol_of_requestedExports wf three listed)
  have few := ((keys_nodup_firstOfKeys _).subperm subset).length_le
  rw [List.length_map, List.length_cons, List.length_map, List.length_append] at few
  exact few

/-- The exports of the interface are those that the options ask for. -/
theorem exports_of_interface {options : Options} {interface : Interface}
    (h : program.interface options = .ok interface) :
    program.exports options.exports = .ok interface.exports := by
  obtain ⟨exports, listed, h⟩ := bind_eq_ok.1 h
  have same : interface.exports = exports := by
    dsimp only at h
    split at h <;> obtain ⟨start, -, h⟩ := bind_eq_ok.1 h <;>
      split at h <;> obtain ⟨names, -, rfl⟩ := return_eq_ok.1 h <;> rfl
  rw [same, listed]

end StaticLink.Program
