import Mathlib.Data.List.Nodup
import Mathlib.Data.Sum.Basic
import StaticLink.Numbering

/-!
# Numbering over all modules

Something that modules have is numbered from the first module on, so that each number belongs to
one module and one position in it.

* `countAll_append`, `countAll_le`, `countAll_congr`: how many there are.
* `countBefore_add_inj`: a number belongs to one module and one position.
* `positions`: the modules and positions in the order of their numbers.
* `getElem?_flatten_of_sizes`: what is at a number, where every module contributes a list.
* `indexSpace`: imports, what the linker supplies and the positions in the modules, in this order.
-/

namespace StaticLink

/-! ## Counting -/

theorem countAll_append (count : ObjectModule → Nat) (modules : List ObjectModule)
    (module : ObjectModule) :
    countAll count (modules ++ [module]) = countAll count modules + count module := by
  induction modules with
  | nil => simp [countAll]
  | cons first rest ih =>
    rw [List.cons_append, countAll, countAll, ih]
    omega

theorem countAll_le {count more : ObjectModule → Nat} {modules : List ObjectModule}
    (le : ∀ module ∈ modules, count module ≤ more module) :
    countAll count modules ≤ countAll more modules := by
  induction modules with
  | nil => exact Nat.le_refl 0
  | cons first rest ih =>
    obtain ⟨one, others⟩ := List.forall_mem_cons.1 le
    rw [countAll, countAll]
    exact Nat.add_le_add one (ih others)

theorem countAll_congr {count other : ObjectModule → Nat} {modules : List ObjectModule}
    (same : ∀ module ∈ modules, count module = other module) :
    countAll count modules = countAll other modules := by
  induction modules with
  | nil => rfl
  | cons first rest ih =>
    rw [countAll, countAll, same first List.mem_cons_self,
      ih fun module member => same module (List.mem_cons_of_mem first member)]

/-! ## Numbers -/

variable (count : ObjectModule → Nat) {modules : List ObjectModule} {owner other : ModuleId}
  {module : ObjectModule} {position : Nat}

/-- The modules before `other` have at least what `owner` and those before it have. -/
theorem countBefore_add_le (found : modules[owner]? = some module) (before : owner < other) :
    countBefore count modules owner + count module ≤ countBefore count modules other := by
  rw [← countBefore_succ found]
  induction other with
  | zero => exact absurd before (Nat.not_lt_zero owner)
  | succ next ih =>
    rcases Nat.lt_or_eq_of_le (Nat.le_of_lt_succ before) with earlier | rfl
    · have step := ih earlier
      rcases later : modules[next]? with _ | following
      · have past : modules.length ≤ next := List.getElem?_eq_none_iff.1 later
        have all : modules.take (next + 1) = modules.take next := by
          rw [List.take_of_length_le past, List.take_of_length_le (Nat.le_succ_of_le past)]
        rw [countBefore, countBefore, all]
        exact step
      · rw [countBefore_succ later]
        omega
    · exact Nat.le_refl _

theorem countBefore_add_le_countAll (found : modules[owner]? = some module) :
    countBefore count modules owner + count module ≤ countAll count modules := by
  have last : owner < modules.length := (List.getElem?_eq_some_iff.1 found).1
  have counted := countBefore_add_le count found last
  rw [countBefore, countBefore, List.take_length] at counted
  exact counted

theorem countBefore_le_countAll (modules : List ObjectModule) (owner : ModuleId) :
    countBefore count modules owner ≤ countAll count modules := by
  rcases found : modules[owner]? with _ | module
  · have all : modules.take owner = modules :=
      List.take_of_length_le (List.getElem?_eq_none_iff.1 found)
    exact Nat.le_of_eq (congrArg (countAll count) all)
  · exact Nat.le_trans (Nat.le_add_right _ _) (countBefore_add_le_countAll count found)

/-- A position counted over all modules belongs to one module. -/
theorem countBefore_add_inj {first second : Nat} {module' : ObjectModule}
    (one : modules[owner]? = some module) (two : modules[other]? = some module')
    (small : first < count module) (small' : second < count module')
    (same : countBefore count modules owner + first = countBefore count modules other + second) :
    owner = other ∧ first = second := by
  have place : owner = other := by
    rcases Nat.lt_trichotomy owner other with before | equal | behind
    · have := countBefore_add_le count one before
      omega
    · exact equal
    · have := countBefore_add_le count two behind
      omega
  subst place
  exact ⟨rfl, Nat.add_left_cancel same⟩

/-! ## Lists by number -/

/-- Where every module contributes a list, what it contributes comes after what the modules before
it contribute. -/
theorem getElem?_flatten_of_sizes {β : Type} (count : ObjectModule → Nat)
    {modules : List ObjectModule} {lists : List (List β)} {list : List β}
    (sizes : ∀ (owner : ModuleId) (module : ObjectModule) (list : List β),
      modules[owner]? = some module → lists[owner]? = some list → list.length = count module)
    (here : modules[owner]? = some module) (there : lists[owner]? = some list)
    (small : position < count module) :
    lists.flatten[countBefore count modules owner + position]? = list[position]? := by
  induction modules generalizing owner lists with
  | nil => cases here
  | cons head rest ih =>
    cases lists with
    | nil => cases there
    | cons first others =>
      have size : first.length = count head := sizes 0 head first rfl rfl
      rw [List.flatten_cons]
      cases owner with
      | zero =>
        cases here
        cases there
        rw [countBefore_zero, Nat.zero_add, List.getElem?_append_left (by rw [size]; exact small)]
      | succ owner =>
        have start : countBefore count (head :: rest) (owner + 1) =
            count head + countBefore count rest owner := rfl
        have place : count head + countBefore count rest owner + position - count head =
            countBefore count rest owner + position := by omega
        rw [start, List.getElem?_append_right (by rw [size]; omega), size, place]
        exact ih (fun owner => sizes (owner + 1)) here there

theorem length_flatten_of_sizes {β : Type} (count : ObjectModule → Nat)
    {modules : List ObjectModule} {lists : List (List β)} (same : lists.length = modules.length)
    (sizes : ∀ (owner : ModuleId) (module : ObjectModule) (list : List β),
      modules[owner]? = some module → lists[owner]? = some list → list.length = count module) :
    lists.flatten.length = countAll count modules := by
  induction modules generalizing lists with
  | nil =>
    rw [List.length_eq_zero_iff.1 same]
    rfl
  | cons head rest ih =>
    cases lists with
    | nil => cases same
    | cons first others =>
      rw [List.flatten_cons, List.length_append, sizes 0 head first rfl rfl,
        ih (Nat.succ.inj same) fun owner => sizes (owner + 1)]
      rfl

/-- The same for what is computed of each module and its position. -/
theorem getElem?_flatMap_zipIdx {β : Type} (count : ObjectModule → Nat)
    {pieces : ObjectModule × Nat → List β} {modules : List ObjectModule}
    (sizes : ∀ module owner, (pieces (module, owner)).length = count module)
    (here : modules[owner]? = some module) (small : position < count module) :
    (modules.zipIdx.flatMap pieces)[countBefore count modules owner + position]? =
      (pieces (module, owner))[position]? := by
  rw [List.flatMap_def]
  refine getElem?_flatten_of_sizes count ?_ here ?_ small
  · intro owner module list here there
    rw [List.getElem?_map, List.getElem?_zipIdx, here] at there
    cases there
    exact sizes module _
  · rw [List.getElem?_map, List.getElem?_zipIdx, here]
    simp

theorem length_flatMap_zipIdx {β : Type} (count : ObjectModule → Nat)
    {pieces : ObjectModule × Nat → List β} (modules : List ObjectModule)
    (sizes : ∀ module owner, (pieces (module, owner)).length = count module) :
    (modules.zipIdx.flatMap pieces).length = countAll count modules := by
  rw [List.flatMap_def]
  refine length_flatten_of_sizes count (by simp) ?_
  intro owner module list here there
  rw [List.getElem?_map, List.getElem?_zipIdx, here] at there
  cases there
  exact sizes module _

/-- The same for what is computed of each module alone. -/
theorem length_flatMap {β : Type} (count : ObjectModule → Nat) {pieces : ObjectModule → List β}
    (modules : List ObjectModule) (sizes : ∀ module, (pieces module).length = count module) :
    (modules.flatMap pieces).length = countAll count modules := by
  rw [List.flatMap_def]
  refine length_flatten_of_sizes count (List.length_map _) ?_
  intro owner module list here there
  rw [List.getElem?_map, here] at there
  cases there
  exact sizes module

/-- The modules and positions in the order of their numbers. -/
def positions (modules : List ObjectModule) : List (ModuleId × Nat) :=
  modules.zipIdx.flatMap fun (module, owner) => (List.range (count module)).map (owner, ·)

theorem length_positions_of (module : ObjectModule) (owner : ModuleId) :
    ((List.range (count module)).map (owner, ·)).length = count module := by
  rw [List.length_map, List.length_range]

theorem length_positions (modules : List ObjectModule) :
    (positions count modules).length = countAll count modules :=
  length_flatMap_zipIdx count modules (length_positions_of count)

theorem getElem?_positions (here : modules[owner]? = some module) (small : position < count module) :
    (positions count modules)[countBefore count modules owner + position]? =
      some (owner, position) := by
  rw [positions, getElem?_flatMap_zipIdx count (length_positions_of count) here small]
  simp [small]

theorem mem_positions : (owner, position) ∈ positions count modules ↔
    ∃ module, modules[owner]? = some module ∧ position < count module := by
  constructor
  · intro member
    obtain ⟨⟨module, place⟩, listed, member⟩ := List.mem_flatMap.1 member
    obtain ⟨_, small, same⟩ := List.mem_map.1 member
    cases same
    exact ⟨module, List.mk_mem_zipIdx_iff_getElem?.1 listed, List.mem_range.1 small⟩
  · rintro ⟨module, here, small⟩
    exact List.mem_of_getElem? (getElem?_positions count here small)

theorem nodup_positions (modules : List ObjectModule) : (positions count modules).Nodup := by
  refine List.nodup_flatMap.2 ⟨?_, ?_⟩
  · rintro ⟨module, owner⟩ -
    exact List.nodup_range.map fun _ _ same => (Prod.mk.inj same).2
  · -- What belongs to different modules differs in the module.
    have owners : (modules.zipIdx.map (·.2)).Nodup := by
      rw [List.zipIdx_map_snd]
      exact List.nodup_range'
    refine (List.pairwise_map.1 owners).imp ?_
    rintro ⟨module, owner⟩ ⟨module', owner'⟩ apart item one two
    obtain ⟨_, -, rfl⟩ := List.mem_map.1 one
    obtain ⟨_, -, same⟩ := List.mem_map.1 two
    exact apart (Prod.mk.inj same).1.symm

/-- A number below how many there are in all belongs to a module and a position in it. -/
theorem exists_owner_of_lt {count : ObjectModule → Nat} {modules : List ObjectModule}
    {number : Nat} (small : number < countAll count modules) : ∃ owner module position,
      modules[owner]? = some module ∧ position < count module ∧
        number = countBefore count modules owner + position := by
  have listed := small
  rw [← length_positions count] at listed
  obtain ⟨⟨owner, position⟩, there⟩ : ∃ place, (positions count modules)[number]? = some place :=
    ⟨_, List.getElem?_eq_getElem listed⟩
  obtain ⟨module, here, inside⟩ := (mem_positions count).1 (List.mem_of_getElem? there)
  refine ⟨owner, module, position, here, inside, ?_⟩
  -- The list has no place twice.
  have other := getElem?_positions count here inside
  exact (List.getElem?_inj listed (nodup_positions count modules)).1 (there.trans other.symm)

/-! ## Index spaces -/

/-- An index space of the linked module: what is imported, what the linker supplies, and the
positions in the modules. -/
def indexSpace {α β : Type} (imported : List α) (supplied : List β) (modules : List ObjectModule) :
    List (α ⊕ β ⊕ ModuleId × Nat) :=
  imported.map .inl ++
    (supplied.map (.inr ∘ .inl) ++ (positions count modules).map (.inr ∘ .inr))

section IndexSpace

variable {α β : Type} {imported : List α} {supplied : List β}

theorem length_indexSpace : (indexSpace count imported supplied modules).length =
    imported.length + (supplied.length + countAll count modules) := by
  unfold indexSpace
  rw [List.length_append, List.length_append, List.length_map, List.length_map, List.length_map,
    length_positions]

theorem nodup_indexSpace (one : imported.Nodup) (two : supplied.Nodup) :
    (indexSpace count imported supplied modules).Nodup := by
  refine List.nodup_append.2 ⟨one.map Sum.inl_injective, List.nodup_append.2 ⟨?_, ?_, ?_⟩, ?_⟩
  · exact two.map (Sum.inr_injective.comp Sum.inl_injective)
  · exact (nodup_positions count modules).map (Sum.inr_injective.comp Sum.inr_injective)
  · rintro item second _ third rfl
    obtain ⟨_, -, rfl⟩ := List.mem_map.1 second
    obtain ⟨_, -, same⟩ := List.mem_map.1 third
    cases same
  · rintro item first _ others rfl
    obtain ⟨_, -, rfl⟩ := List.mem_map.1 first
    rcases List.mem_append.1 others with second | third
    · obtain ⟨_, -, same⟩ := List.mem_map.1 second
      cases same
    · obtain ⟨_, -, same⟩ := List.mem_map.1 third
      cases same

theorem getElem?_indexSpace_imported {item : α} (here : imported[position]? = some item) :
    (indexSpace count imported supplied modules)[position]? = some (.inl item) := by
  have small := (List.getElem?_eq_some_iff.1 here).1
  unfold indexSpace
  rw [List.getElem?_append_left (by rw [List.length_map]; exact small), List.getElem?_map, here]
  rfl

theorem getElem?_indexSpace_supplied {item : β} (here : supplied[position]? = some item) :
    (indexSpace count imported supplied modules)[imported.length + position]? =
      some (.inr (.inl item)) := by
  have small := (List.getElem?_eq_some_iff.1 here).1
  unfold indexSpace
  rw [List.getElem?_append_right (by rw [List.length_map]; omega), List.length_map,
    Nat.add_sub_cancel_left, List.getElem?_append_left (by rw [List.length_map]; exact small),
    List.getElem?_map, here]
  rfl

theorem getElem?_indexSpace_position (here : modules[owner]? = some module)
    (small : position < count module) :
    (indexSpace count imported supplied modules)[imported.length + supplied.length +
        countBefore count modules owner + position]? = some (.inr (.inr (owner, position))) := by
  unfold indexSpace
  rw [Nat.add_assoc, Nat.add_assoc, List.getElem?_append_right (by rw [List.length_map]; omega),
    List.length_map, Nat.add_sub_cancel_left,
    List.getElem?_append_right (by rw [List.length_map]; omega), List.length_map,
    Nat.add_sub_cancel_left, List.getElem?_map, getElem?_positions count here small]
  rfl

theorem mem_indexSpace {item : α ⊕ β ⊕ ModuleId × Nat}
    (member : item ∈ indexSpace count imported supplied modules) :
    (∃ name ∈ imported, item = .inl name) ∨ (∃ id ∈ supplied, item = .inr (.inl id)) ∨
      ∃ owner module position, modules[owner]? = some module ∧ position < count module ∧
        item = .inr (.inr (owner, position)) := by
  rcases List.mem_append.1 member with first | others
  · obtain ⟨name, listed, rfl⟩ := List.mem_map.1 first
    exact .inl ⟨name, listed, rfl⟩
  rcases List.mem_append.1 others with second | third
  · obtain ⟨id, listed, rfl⟩ := List.mem_map.1 second
    exact .inr (.inl ⟨id, listed, rfl⟩)
  · obtain ⟨⟨owner, position⟩, listed, rfl⟩ := List.mem_map.1 third
    obtain ⟨module, here, small⟩ := (mem_positions count).1 listed
    exact .inr (.inr ⟨owner, module, position, here, small, rfl⟩)

end IndexSpace

/-- Items that have indices stand at them, if each of them stands at one of its indices. -/
theorem index_iff_of_nodup {α : Type} {items : List α} {has : α → Nat → Prop} {item : α}
    {index : Nat} (nodup : items.Nodup)
    (stands : ∀ item index, has item index → items[index]? = some item)
    (any : ∀ item ∈ items, ∃ index, has item index) :
    has item index ↔ items[index]? = some item := by
  constructor
  · exact stands item index
  · intro here
    -- The item has an index, and it stands there too.
    obtain ⟨other, known⟩ := any item (List.mem_of_getElem? here)
    have there := stands item other known
    obtain ⟨small, same⟩ := List.getElem?_eq_some_iff.1 here
    obtain ⟨small', same'⟩ := List.getElem?_eq_some_iff.1 there
    have equal := (List.Nodup.getElem_inj_iff nodup).1 (same'.trans same.symm)
    rw [← equal]
    exact known

end StaticLink
