import Mathlib.Data.List.Find
import StaticLink.Proofs.Output.OptionalSections

/-!
# The names of functions

The names that inputs give to their functions are moved to the indices of the linked module, sorted
and left out where an index has one already. An input may also name functions that it does not have.
Such a name goes wherever its index points, and may come before the name of another function.

* `nameAt?`: the name of an index; `Program.nameAt?_functionNames`: it is the first that was given.
* `Program.ownName?`: the name of a function of the linked module; `Program.NamesApart`: every function
  has its own name.
* `Program.Stray`: an input names a function that it does not have.
* `link_functionNames`: every function has its own name exactly if no stray name takes its place.
-/

namespace StaticLink

/-- The name of the function with this index. -/
def nameAt? (names : List (UInt32 × String)) (index : UInt32) : Option String :=
  (names.find? fun entry => decide (entry.1 = index)).map (·.2)

/-- The first name that the module gives to the function at `position` of those that it defines. -/
def ObjectModule.nameOf? (module : ObjectModule) (position : Nat) : Option String :=
  (module.functionNames.toList.find? fun entry =>
    decide (entry.1.toNat = module.functionImports.size + position)).map (·.2)

/-- The module names functions that it has, and no others. -/
def ObjectModule.NamesOwn (module : ObjectModule) : Prop :=
  ∀ entry ∈ module.functionNames,
    entry.1.toNat < module.functionImports.size + module.functions.size

instance (module : ObjectModule) : Decidable module.NamesOwn :=
  inferInstanceAs (Decidable (∀ entry ∈ module.functionNames, _))

namespace Program

/-- The name that a function of the linked module has by itself. Imported functions have none. -/
def ownName? (program : Program) : (function : OutputFunction) → Option String
  | .imported _ => none
  | .supplied id => (program.symbols.records[id]?).map (·.name)
  | .defined owner position => (program.modules[owner]?).bind (·.nameOf? position)

/-- The names are those of functions of the linked module that are not imported. Every function has
its own name, if any. -/
structure NamesApart (program : Program) (names : List (UInt32 × String)) : Prop where
  designates : ∀ entry ∈ names, ∃ function, program.HasIndex function entry.1.toNat ∧
    ∀ name, function ≠ .imported name
  own : ∀ function index, program.HasIndex function index.toNat →
    nameAt? names index = program.ownName? function

/-- Input `owner` gives a name to function `index`, which is behind all that it has. -/
structure Stray (program : Program) (owner : ModuleId) (module : ObjectModule) (index : UInt32) :
    Prop where
  input : program.modules[owner]? = some module
  listed : ∃ name, (index, name) ∈ module.functionNames
  behind : module.functionImports.size + module.functions.size ≤ index.toNat

end Program

variable {names first second : List (UInt32 × String)} {index : UInt32} {entry : UInt32 × String}

/-! ## The name of an index -/

theorem nameAt?_eq_none_iff : nameAt? names index = none ↔ ∀ entry ∈ names, entry.1 ≠ index := by
  rw [nameAt?, Option.map_eq_none_iff, List.find?_eq_none]
  simp only [decide_eq_true_iff, ne_eq]

theorem nameAt?_append :
    nameAt? (first ++ second) index = (nameAt? first index).or (nameAt? second index) := by
  rw [nameAt?, List.find?_append, Option.map_or]
  rfl

theorem indexLe_trans (first second third : UInt32 × String) (one : indexLe first second = true)
    (two : indexLe second third = true) : indexLe first third = true := by
  rw [indexLe, decide_eq_true_iff] at one two ⊢
  exact UInt32.le_trans one two

theorem indexLe_total (first second : UInt32 × String) :
    (indexLe first second || indexLe second first) = true := by
  rw [Bool.or_eq_true, indexLe, indexLe, decide_eq_true_iff, decide_eq_true_iff]
  exact UInt32.le_total _ _

theorem pairwise_ascending (names : List (UInt32 × String)) :
    (ascending names).Pairwise fun first second => first.1 < second.1 := by
  have sorted := List.pairwise_mergeSort indexLe_trans indexLe_total names
  have different := List.pairwise_map.1 (keys_nodup_firstOfKeys (names.mergeSort indexLe))
  refine ((sorted.sublist (firstOfKeys_sublist _)).and different).imp ?_
  rintro first second ⟨le, ne⟩
  exact UInt32.lt_of_le_of_ne (of_decide_eq_true le) ne

theorem ascending_of_pairwise
    (sorted : names.Pairwise fun first second => indexLe first second = true) :
    ascending names = firstOfKeys names := by
  rw [ascending, List.mergeSort_of_pairwise sorted]

/-- An index has the first name that was given to it. -/
theorem nameAt?_ascending : nameAt? (ascending names) index = nameAt? names index := by
  rw [nameAt?, ascending, find?_firstOfKeys, nameAt?]
  rw [find?_mergeSort indexLe_trans indexLe_total]
  intro first second one two
  rw [decide_eq_true_iff] at one two
  rw [indexLe, one, two, decide_eq_true_iff]
  exact UInt32.le_refl _

theorem exists_mem_ascending_iff :
    (∃ entry ∈ ascending names, entry.1 = index) ↔ ∃ entry ∈ names, entry.1 = index := by
  have keys : index ∈ (ascending names).map (·.1) ↔ index ∈ (names.mergeSort indexLe).map (·.1) :=
    mem_keys_firstOfKeys
  simpa only [List.mem_map, List.mem_mergeSort] using keys

/-- The name of an index is that of an entry. -/
theorem mem_of_nameAt? {name : String} (h : nameAt? names index = some name) :
    (index, name) ∈ names := by
  obtain ⟨entry, found, rfl⟩ := Option.map_eq_some_iff.1 h
  have chosen := List.find?_some found
  rw [decide_eq_true_iff] at chosen
  rw [← chosen]
  exact List.mem_of_find?_eq_some found

theorem nameAt?_flatMap {α : Type} (items : List α) (given : α → List (UInt32 × String)) :
    nameAt? (items.flatMap given) index =
      items.findSome? fun item => nameAt? (given item) index := by
  induction items with
  | nil => rfl
  | cons item rest ih =>
    rw [List.flatMap_cons, nameAt?_append, ih, List.findSome?_cons]
    cases nameAt? (given item) index <;> rfl

/-- Where there is a result for one item only, the search gives this. -/
theorem findSome?_eq_of_only {α β : Type} {result : α → Option β} {items : List α} {item : α}
    (member : item ∈ items) (only : ∀ other ∈ items, result other ≠ none → other = item) :
    items.findSome? result = result item := by
  induction items with
  | nil => cases member
  | cons first rest ih =>
    obtain ⟨one, others⟩ := List.forall_mem_cons.1 only
    rw [List.findSome?_cons]
    rcases here : result first with _ | found
    · rcases List.mem_cons.1 member with rfl | later
      · rw [here]
        refine List.findSome?_eq_none_iff.2 fun other listed => ?_
        by_contra some
        rw [others other listed some, here] at some
        exact some rfl
      · exact ih later others
    · obtain rfl := one (by rw [here]; exact Option.some_ne_none found)
      exact here.symm

namespace Program

variable {program : Program} {owner : ModuleId} {module : ObjectModule} {position : Nat}
  {function other : OutputFunction} {supplied : List (UInt32 × String)} {id : SymbolId}

/-! ## What names are given to -/

theorem Numbered.hasIndex_unique (numbered : program.Numbered) {index : Nat}
    (one : program.HasIndex function index) (two : program.HasIndex other index) :
    function = other := by
  rw [numbered.index_iff] at one two
  exact Option.some.inj (one.symm.trans two)

/-- An index of the linked module is a word. -/
theorem Numbered.toNat_ofNat (numbered : program.Numbered) {index : Nat}
    (here : program.HasIndex function index) : (UInt32.ofNat index).toNat = index := by
  rw [numbered.index_iff] at here
  have inside := (List.getElem?_eq_some_iff.1 here).1
  rw [numbered.size] at inside
  exact UInt32.toNat_ofNat_of_lt' (Nat.lt_trans inside numbered.small)

/-- The linker names what it supplies. -/
theorem hasIndex_of_syntheticNames (numbered : program.Numbered)
    (h : program.syntheticNames = .ok supplied) (member : entry ∈ supplied) :
    ∃ id, program.HasIndex (.supplied id) entry.1.toNat ∧
      program.ownName? (.supplied id) = some entry.2 := by
  obtain ⟨place, here⟩ := List.mem_iff_getElem?.1 member
  obtain ⟨id, listed, one⟩ := exists_item_of_mapM_eq_ok h here
  obtain ⟨symbol, stands, one⟩ := bind_eq_ok.1 one
  obtain ⟨index, found, rfl⟩ := return_eq_ok.1 one
  have has : program.HasIndex (.supplied id) index := .supplied (List.mem_of_getElem? listed) found
  refine ⟨id, ?_, ?_⟩
  · rw [numbered.toNat_ofNat has]
    exact has
  · rw [ownName?, existing_eq_ok.1 stands]
    rfl

theorem exists_of_supplied (h : program.syntheticNames = .ok supplied)
    (has : program.HasIndex (.supplied id) index.toNat) : ∃ entry ∈ supplied, entry.1 = index := by
  cases has with
  | supplied listed found =>
    obtain ⟨place, here⟩ := List.mem_iff_getElem?.1 listed
    obtain ⟨entry, there, one⟩ := exists_of_forall₂ (forall₂_of_mapM_eq_ok h) here
    obtain ⟨symbol, stands, one⟩ := bind_eq_ok.1 one
    obtain ⟨_, found', rfl⟩ := return_eq_ok.1 one
    cases found.symm.trans found'
    exact ⟨_, List.mem_of_getElem? there, UInt32.ofNat_toNat⟩

theorem mem_movedNames : entry ∈ program.movedNames owner module ↔
    ∃ given name, (given, name) ∈ module.functionNames ∧
      module.functionImports.size ≤ given.toNat ∧
      entry = (program.namedIndex owner module given, name) := by
  rw [movedNames, List.mem_map]
  constructor
  · rintro ⟨⟨given, name⟩, kept, rfl⟩
    obtain ⟨listed, own⟩ := List.mem_filter.1 kept
    exact ⟨given, name, Array.mem_toList_iff.1 listed, of_decide_eq_true own, rfl⟩
  · rintro ⟨given, name, listed, own, rfl⟩
    exact ⟨(given, name), List.mem_filter.2 ⟨Array.mem_toList_iff.2 listed, decide_eq_true own⟩, rfl⟩

/-- An input names a function that it defines, or the name is a stray one. -/
theorem hasIndex_or_stray (numbered : program.Numbered)
    (input : program.modules[owner]? = some module) {name : String}
    (listed : (index, name) ∈ module.functionNames)
    (own : module.functionImports.size ≤ index.toNat) :
    program.HasIndex (.defined owner (index.toNat - module.functionImports.size))
        (program.namedIndex owner module index).toNat ∨
      program.Stray owner module index := by
  by_cases inside : index.toNat < module.functionImports.size + module.functions.size
  · left
    have has : program.HasIndex (.defined owner (index.toNat - module.functionImports.size)) _ :=
      .defined input (by omega)
    rw [namedIndex, namedNumber, numbered.toNat_ofNat has]
    exact has
  · exact .inr ⟨input, ⟨name, listed⟩, Nat.le_of_not_lt inside⟩

/-! ## The names of an input -/

/-- No stray name is given to this index. -/
def Clear (program : Program) (index : UInt32) : Prop :=
  ∀ owner module given, program.Stray owner module given →
    program.namedIndex owner module given ≠ index

theorem hasIndex_of_movedNames (numbered : program.Numbered)
    (input : program.modules[owner]? = some module) (clear : program.Clear entry.1)
    (member : entry ∈ program.movedNames owner module) :
    ∃ position, program.HasIndex (.defined owner position) entry.1.toNat := by
  obtain ⟨given, name, listed, own, rfl⟩ := mem_movedNames.1 member
  rcases hasIndex_or_stray numbered input listed own with has | stray
  · exact ⟨_, has⟩
  · exact absurd rfl (clear owner module given stray)

theorem HasIndex.eq_functionBase {number : Nat}
    (has : program.HasIndex (.defined owner position) number) :
    number = program.functionBase owner + position := by
  cases has
  rfl

/-- The first name of an input for an index is the first that it gives to its function. -/
theorem nameAt?_movedNames (numbered : program.Numbered)
    (input : program.modules[owner]? = some module) (clear : program.Clear index)
    (has : program.HasIndex (.defined owner position) index.toNat) :
    nameAt? (program.movedNames owner module) index = module.nameOf? position := by
  rw [nameAt?, movedNames, List.find?_map, List.find?_filter, ObjectModule.nameOf?, Option.map_map]
  congr 1
  refine List.find?_congr ?_
  rintro ⟨given, name⟩ listed
  show decide (decide (module.functionImports.size ≤ given.toNat) = true ∧
    decide (program.namedIndex owner module given = index) = true) =
      decide (given.toNat = module.functionImports.size + position)
  rw [Bool.eq_iff_iff, decide_eq_true_iff, decide_eq_true_iff, decide_eq_true_iff,
    decide_eq_true_iff]
  constructor
  · rintro ⟨own, rfl⟩
    rcases hasIndex_or_stray numbered input (Array.mem_toList_iff.1 listed) own with has' | stray
    · have same := numbered.hasIndex_unique has has'
      injection same with _ same
      omega
    · exact absurd rfl (clear owner module given stray)
  · intro same
    refine ⟨by omega, ?_⟩
    have place : program.functionBase owner + (given.toNat - module.functionImports.size) =
        index.toNat := by
      rw [has.eq_functionBase]
      omega
    rw [namedIndex, namedNumber, place, UInt32.ofNat_toNat]

theorem nameAt?_givenNames (numbered : program.Numbered) (clear : program.Clear index)
    (has : program.HasIndex (.defined owner position) index.toNat) :
    nameAt? program.givenNames index = program.ownName? (.defined owner position) := by
  obtain ⟨module, input⟩ : ∃ module, program.modules[owner]? = some module := by
    generalize index.toNat = number at has
    cases has with
    | defined input => exact ⟨_, input⟩
  have listed : (module, owner) ∈ program.modules.zipIdx := List.mk_mem_zipIdx_iff_getElem?.2 input
  rw [givenNames, nameAt?_flatMap, findSome?_eq_of_only listed, ownName?, input, Option.bind_some]
  · exact nameAt?_movedNames numbered input clear has
  · -- Another input would have the function.
    rintro ⟨module', owner'⟩ listed' some
    have input' : program.modules[owner']? = Option.some module' :=
      List.mk_mem_zipIdx_iff_getElem?.1 listed'
    obtain ⟨name, found⟩ := Option.ne_none_iff_exists'.1 some
    obtain ⟨position', has'⟩ :=
      hasIndex_of_movedNames numbered input' clear (mem_of_nameAt? found)
    have same := numbered.hasIndex_unique has has'
    injection same with same
    subst same
    cases input.symm.trans input'
    rfl

/-! ## All names -/

/-- What the linker supplies has the name of its symbol. -/
theorem exists_name_of_supplied (numbered : program.Numbered)
    (h : program.syntheticNames = .ok supplied) (has : program.HasIndex (.supplied id) index.toNat) :
    ∃ name, nameAt? supplied index = some name ∧ program.ownName? (.supplied id) = some name := by
  rcases found : nameAt? supplied index with _ | name
  · obtain ⟨entry, member, same⟩ := exists_of_supplied h has
    exact absurd same (nameAt?_eq_none_iff.1 found entry member)
  · obtain ⟨id', has', own⟩ := hasIndex_of_syntheticNames numbered h (mem_of_nameAt? found)
    rw [numbered.hasIndex_unique has has']
    exact ⟨name, rfl, own⟩

theorem nameAt?_supplied_eq_none (numbered : program.Numbered)
    (h : program.syntheticNames = .ok supplied) (has : program.HasIndex function index.toNat)
    (other : ∀ id, function ≠ .supplied id) : nameAt? supplied index = none := by
  rw [nameAt?_eq_none_iff]
  rintro entry member rfl
  obtain ⟨id, has', -⟩ := hasIndex_of_syntheticNames numbered h member
  exact other id (numbered.hasIndex_unique has has')

/-- Where no stray name is given to its index, a function has its own name. -/
theorem nameAt?_of_clear (numbered : program.Numbered) (h : program.syntheticNames = .ok supplied)
    (clear : program.Clear index) (has : program.HasIndex function index.toNat) :
    nameAt? (supplied ++ program.givenNames) index = program.ownName? function := by
  rw [nameAt?_append]
  cases function with
  | imported name =>
    rw [nameAt?_supplied_eq_none numbered h has nofun, Option.none_or]
    show _ = none
    rw [nameAt?_eq_none_iff]
    rintro entry member rfl
    obtain ⟨⟨module, owner⟩, listed, member⟩ := List.mem_flatMap.1 member
    obtain ⟨position, has'⟩ := hasIndex_of_movedNames numbered
      (List.mk_mem_zipIdx_iff_getElem?.1 listed) clear member
    cases numbered.hasIndex_unique has has'
  | supplied id =>
    obtain ⟨name, found, own⟩ := exists_name_of_supplied numbered h has
    rw [found, own, Option.some_or]
  | defined owner position =>
    rw [nameAt?_supplied_eq_none numbered h has nofun, Option.none_or]
    exact nameAt?_givenNames numbered clear has

/-- A name is given to a function of the linked module, or it is a stray one. -/
theorem hasIndex_or_stray_of_mem (numbered : program.Numbered)
    (h : program.syntheticNames = .ok supplied) (member : entry ∈ supplied ++ program.givenNames) :
    (∃ function, program.HasIndex function entry.1.toNat) ∨
      ∃ owner module given, program.Stray owner module given ∧
        program.namedIndex owner module given = entry.1 := by
  rcases List.mem_append.1 member with member | member
  · obtain ⟨id, has, -⟩ := hasIndex_of_syntheticNames numbered h member
    exact .inl ⟨_, has⟩
  · obtain ⟨⟨module, owner⟩, listed, member⟩ := List.mem_flatMap.1 member
    obtain ⟨given, name, listed', own, rfl⟩ := mem_movedNames.1 member
    have input : program.modules[owner]? = some module := List.mk_mem_zipIdx_iff_getElem?.1 listed
    rcases hasIndex_or_stray numbered input listed' own with has | stray
    · exact .inl ⟨_, has⟩
    · exact .inr ⟨owner, module, given, stray, rfl⟩

/-- A stray name is given to its index. -/
theorem Stray.exists_mem (stray : program.Stray owner module index) :
    ∃ entry ∈ program.givenNames, entry.1 = program.namedIndex owner module index := by
  obtain ⟨input, ⟨name, listed⟩, behind⟩ := stray
  refine ⟨(program.namedIndex owner module index, name), List.mem_flatMap.2 ⟨(module, owner),
    List.mk_mem_zipIdx_iff_getElem?.2 input, mem_movedNames.2 ⟨index, name, listed, ?_, rfl⟩⟩, rfl⟩
  exact Nat.le_trans (Nat.le_add_right _ _) behind

/-- The index of every stray name is that of a function, which has its own name all the same. -/
def StraysHidden (program : Program) (names : List (UInt32 × String)) : Prop :=
  ∀ owner module given, program.Stray owner module given → ∃ function,
    program.HasIndex function (program.namedIndex owner module given).toNat ∧
    nameAt? names (program.namedIndex owner module given) = program.ownName? function

/-- Imported functions are not named where every function has its own name. -/
theorem namesApart_of_own (designates : ∀ entry ∈ names, ∃ function,
      program.HasIndex function entry.1.toNat)
    (own : ∀ function index, program.HasIndex function index.toNat →
      nameAt? names index = program.ownName? function) : program.NamesApart names := by
  refine ⟨fun entry member => ?_, own⟩
  obtain ⟨function, has⟩ := designates entry member
  refine ⟨function, has, ?_⟩
  rintro name rfl
  exact nameAt?_eq_none_iff.1 (own _ _ has) entry member rfl

theorem namesApart_iff (numbered : program.Numbered) (named : program.functionNames = .ok names) :
    program.NamesApart names ↔ program.StraysHidden names := by
  obtain ⟨-, supplied, h, rfl⟩ := functionNames_eq_ok_iff.1 named
  constructor
  · intro apart owner module given stray
    obtain ⟨entry, member, same⟩ := stray.exists_mem
    obtain ⟨entry', member', same'⟩ := exists_mem_ascending_iff.2
      ⟨entry, List.mem_append_right supplied member, same⟩
    obtain ⟨function, has, -⟩ := apart.designates entry' member'
    rw [same'] at has
    exact ⟨function, has, apart.own function _ has⟩
  · intro hidden
    refine namesApart_of_own ?_ ?_
    · intro entry member
      obtain ⟨entry', member', same⟩ := exists_mem_ascending_iff.1 ⟨entry, member, rfl⟩
      rw [← same]
      rcases hasIndex_or_stray_of_mem numbered h member' with has | ⟨owner, module, given, stray, key⟩
      · exact has
      · obtain ⟨function, has, -⟩ := hidden owner module given stray
        rw [key] at has
        exact ⟨function, has⟩
    · intro function index has
      by_cases clear : program.Clear index
      · rw [nameAt?_ascending]
        exact nameAt?_of_clear numbered h clear has
      · -- A stray name is given to this index.
        simp only [Clear, not_forall, not_not] at clear
        obtain ⟨owner, module, given, stray, rfl⟩ := clear
        obtain ⟨function', has', own⟩ := hidden owner module given stray
        rw [own, numbered.hasIndex_unique has has']

theorem straysHidden_of_namesOwn (all : ∀ module ∈ program.modules, module.NamesOwn) :
    program.StraysHidden names := by
  intro owner module given stray
  obtain ⟨input, ⟨name, listed⟩, behind⟩ := stray
  exact absurd (all module (List.mem_of_getElem? input) _ listed) (Nat.not_lt.2 behind)

end Program

/-! ## Links -/

variable {inputs : List (String × Bytes)} {options : Options} {output : Bytes}

/-- The names of a linked module ascend, and they are in a section of their own. As long as functions
have indices of 32 bits, every function has its own name, if any, and nothing else has a name,
exactly if all stray names are hidden: above all, if no input names a function that it does not
have. -/
theorem link_functionNames (wanted : options.debugNames = true)
    (linked : link inputs options = .ok output) :
    ∃ program interface contents names, Program.ofInputs inputs options = .ok program ∧
      program.Written interface contents output ∧ program.functionNames = .ok names ∧
      contents .custom = some (Program.nameContents names) ∧
      (names.Pairwise fun first second => first.1 < second.1) ∧
      (totalSize inputs < wordLimit →
        program.imports.functions.length + program.functionCount < wordLimit) ∧
      (program.imports.functions.length + program.functionCount < wordLimit →
        (program.NamesApart names ↔ program.StraysHidden names) ∧
        ((∀ module ∈ program.modules, module.NamesOwn) → program.NamesApart names)) := by
  obtain ⟨program, interface, decided, shown, written⟩ := exists_written_of_link linked
  obtain ⟨-, -, listed⟩ := Program.interface_eq_ok_iff.1 shown
  rw [if_pos wanted] at listed
  obtain ⟨names, named, shows⟩ := return_eq_ok.1 listed
  have made := written.made .custom
  rw [Program.sectionContents, ← shows] at made
  obtain ⟨-, supplied, -, same⟩ := Program.functionNames_eq_ok_iff.1 named
  refine ⟨program, interface, _, names, decided, written, named, (Except.ok.inj made).symm, ?_, ?_, ?_⟩
  · rw [← same]
    exact pairwise_ascending _
  · exact fun small => (Program.numbered_of_ofInputs decided small).small
  · intro few
    have apart := Program.namesApart_iff (Program.numbered_of_few decided few) named
    exact ⟨apart, fun all => apart.2 (Program.straysHidden_of_namesOwn all)⟩

/-- Where linking succeeds without names, it does with names that are not too long. -/
theorem exists_link_withNames {program : Program} (unstarted : options.emitStart = false)
    (unnamed : options.debugNames = false) (linked : link inputs options = .ok output)
    (decided : Program.ofInputs inputs options = .ok program)
    (named : program.functionNames = .ok names)
    (few : (Program.nameContents names).length < wordLimit) :
    Program.ofInputs inputs { options with debugNames := true } = .ok program ∧
      ∃ output, link inputs { options with debugNames := true } = .ok output := by
  refine ⟨decided, ?_⟩
  obtain ⟨_, ⟨exports, _, _⟩, contents, decided', shown, written⟩ := link_eq_ok_iff.1 linked
  cases decided.symm.trans decided'
  obtain ⟨listed, start, absent⟩ := Program.interface_eq_ok_iff.1 shown
  rw [unstarted] at start
  rw [unnamed] at absent
  cases start
  cases absent
  exact ⟨_, link_withNames decided listed written unstarted named few⟩

/-- An input with one function, which it calls `two`. -/
def namingTwo : String × Bytes :=
  ("two.o",
    [0, 97, 115, 109, 1, 0, 0, 0, 1, 4, 1, 96, 0, 0, 3, 2, 1, 0, 10, 4, 1, 2, 0, 11, 0, 19, 7, 108, 105,
      110, 107, 105, 110, 103, 2, 8, 8, 1, 0, 0, 0, 3, 116, 119, 111, 0, 13, 4, 110, 97, 109, 101, 1, 6,
      1, 0, 3, 116, 119, 111])

/-- Two inputs with one function each, which they name. -/
def naming : List (String × Bytes) :=
  [("one.o",
      [0, 97, 115, 109, 1, 0, 0, 0, 1, 4, 1, 96, 0, 0, 3, 2, 1, 0, 10, 4, 1, 2, 0, 11, 0, 19, 7, 108,
        105, 110, 107, 105, 110, 103, 2, 8, 8, 1, 0, 0, 0, 3, 111, 110, 101, 0, 13, 4, 110, 97, 109,
        101, 1, 6, 1, 0, 3, 111, 110, 101]),
    namingTwo]

/-- The functions of `naming` have their own names. -/
theorem link_naming_apart :
    ∃ (program : Program) (contents : SectionId → Option Bytes),
      Program.ofInputs naming { debugNames := true } = .ok program ∧
      contents .custom = some (Program.nameContents [(0, "one"), (1, "two")]) ∧
      program.NamesApart [(0, "one"), (1, "two")] := by
  have succeeds : (link naming {}).isOk = true := by decide +kernel
  have facts : ((Program.ofInputs naming {}).map fun program =>
      (decide (program.syntheticNames = .ok []), program.givenNames,
        decide (program.NamesFit ∧ ∀ module ∈ program.modules, module.NamesOwn))) =
      .ok (true, [(0, "one"), (1, "two")], true) := by decide +kernel
  obtain ⟨plain, linked⟩ := exists_of_isOk succeeds
  obtain ⟨program, -, decided, -, -⟩ := exists_written_of_link linked
  rw [decided] at facts
  obtain ⟨supplied, facts⟩ := Prod.mk.inj (Except.ok.inj facts)
  obtain ⟨given, all⟩ := Prod.mk.inj facts
  obtain ⟨fit, all⟩ := of_decide_eq_true all
  have named : program.functionNames = .ok [(0, "one"), (1, "two")] := by
    refine Program.functionNames_eq_ok_iff.2 ⟨fit, [], of_decide_eq_true supplied, ?_⟩
    rw [given, ascending_of_pairwise (by decide)]
    decide
  obtain ⟨decided, output, linked⟩ :=
    exists_link_withNames rfl rfl linked decided named (by decide +kernel)
  obtain ⟨program', _, contents, names, decided', -, named', written, -, small, apart⟩ :=
    link_functionNames rfl linked
  cases decided.symm.trans decided'
  cases named.symm.trans named'
  exact ⟨program, contents, decided, written,
    (apart (small (by decide +kernel))).2 all⟩

/-- An input that names its function and the one behind it, and another input. -/
def misnaming : List (String × Bytes) :=
  [("one.o",
      [0, 97, 115, 109, 1, 0, 0, 0, 1, 4, 1, 96, 0, 0, 3, 2, 1, 0, 10, 4, 1, 2, 0, 11, 0, 19, 7, 108,
        105, 110, 107, 105, 110, 103, 2, 8, 8, 1, 0, 0, 0, 3, 111, 110, 101, 0, 20, 4, 110, 97, 109,
        101, 1, 13, 2, 0, 3, 111, 110, 101, 1, 5, 115, 116, 114, 97, 121]),
    namingTwo]

/-- The stray name of the first input comes before the own name of the function of the second. -/
theorem link_misnaming :
    ∃ (program : Program) (output : Bytes) (module : ObjectModule),
      link misnaming { debugNames := true } = .ok output ∧
      Program.ofInputs misnaming { debugNames := true } = .ok program ∧
      program.functionNames = .ok [(0, "one"), (1, "stray")] ∧
      program.modules[1]? = some module ∧ module.nameOf? 0 = some "two" ∧
      program.HasIndex (.defined 1 0) (1 : UInt32).toNat ∧
      ¬ program.NamesApart [(0, "one"), (1, "stray")] := by
  have succeeds : (link misnaming {}).isOk = true := by decide +kernel
  have facts : ((Program.ofInputs misnaming {}).map fun program =>
      (decide (program.NamesFit ∧ program.syntheticNames = .ok []), program.givenNames,
        program.functionBase 1)) =
      .ok (true, [(0, "one"), (1, "stray"), (1, "two")], 1) := by decide +kernel
  have second : ((Program.ofInputs misnaming {}).map fun program =>
      (program.modules[1]?).map fun module => (module.nameOf? 0, module.functions.size)) =
      .ok (some (some "two", 1)) := by decide +kernel
  obtain ⟨plain, linked⟩ := exists_of_isOk succeeds
  obtain ⟨program, -, decided, -, -⟩ := exists_written_of_link linked
  rw [decided] at facts second
  obtain ⟨supplied, facts⟩ := Prod.mk.inj (Except.ok.inj facts)
  obtain ⟨fit, supplied⟩ := of_decide_eq_true supplied
  obtain ⟨given, start⟩ := Prod.mk.inj facts
  obtain ⟨module, input, same⟩ := Option.map_eq_some_iff.1 (Except.ok.inj second)
  obtain ⟨own, size⟩ := Prod.mk.inj same
  have named : program.functionNames = .ok [(0, "one"), (1, "stray")] := by
    refine Program.functionNames_eq_ok_iff.2 ⟨fit, [], supplied, ?_⟩
    rw [given, ascending_of_pairwise (by decide)]
    decide
  have has : program.HasIndex (.defined 1 0) (1 : UInt32).toNat := by
    have first : 0 < module.functions.size := by
      rw [size]
      decide
    have has := Program.HasIndex.defined input first
    rw [start] at has
    exact has
  obtain ⟨decided, output, linked⟩ :=
    exists_link_withNames rfl rfl linked decided named (by decide +kernel)
  refine ⟨program, output, module, linked, decided, named, input, own, has, ?_⟩
  intro apart
  have name := apart.own _ _ has
  rw [Program.ownName?, input, Option.bind_some, own] at name
  exact absurd name (by decide)

end StaticLink
