import Mathlib.Data.List.Forall2
import StaticLink.Error

/-!
# Runs of steps that can fail

What is known of a list of steps that all succeeded.

* `return_eq_ok`: a step whose result is only changed.
* `mapM_eq_ok`, `forall₂_of_mapM_eq_ok`: each result comes from its item; `mapM_eq_ok_iff`: the
  results of steps of which it is known when they succeed, such as `inWord`; `mapM_ok_or`: why a run
  fails.
* `foldlM_keeps`, `foldlM_reaches`: what every step keeps is kept by the run, and what one step
  reaches and the others keep is reached.
* `state_bind_eq_ok`, `forM_keeps`: the same for steps that change a state, where what is kept may
  speak of the items so far; `forM_eq_error`, `forM_of_error`: where a run that fails stops;
  `exists_after_of_run'`: what is seen of the state behind a step; `lastState`: that state, whatever
  came of the step.
* `getElem?_concat_pair`, `getElem?_of_forall₂`: two lists side by side.
-/

namespace StaticLink

variable {α β ε σ : Type} {items : List α}

/-- A step whose result is only changed succeeds if the step does. -/
theorem return_eq_ok {first : Except Error α} {change : α → β} {result : β} :
    (do return change (← first)) = .ok result ↔
      ∃ value, first = .ok value ∧ change value = result := by
  rw [bind_eq_ok]
  simp only [pure, Except.pure, Except.ok.injEq]

/-- A step that succeeds has a result. -/
theorem exists_of_isOk {result : Except ε α} (h : result.isOk = true) :
    ∃ value, result = .ok value := by
  cases result with
  | error failure => cases h
  | ok value => exact ⟨value, rfl⟩

/-- The results of a run stand where their items do. -/
theorem mapM_eq_ok {step : α → Except Error β} {results : List β}
    (h : items.mapM step = .ok results) :
    results.length = items.length ∧ ∀ (i : Nat) (item : α), items[i]? = some item →
      ∃ result, step item = .ok result ∧ results[i]? = some result := by
  induction items generalizing results with
  | nil =>
    cases h
    exact ⟨rfl, by simp⟩
  | cons first rest ih =>
    rw [List.mapM_cons] at h
    obtain ⟨head, one, h⟩ := bind_eq_ok.1 h
    obtain ⟨tail, others, rfl⟩ := return_eq_ok.1 h
    obtain ⟨size, each⟩ := ih others
    refine ⟨congrArg (· + 1) size, ?_⟩
    intro i item here
    cases i with
    | zero =>
      cases here
      exact ⟨head, one, rfl⟩
    | succ i => exact each i item here

/-- The results of a run stand side by side with their items. -/
theorem forall₂_of_mapM_eq_ok {step : α → Except Error β} {results : List β}
    (h : items.mapM step = .ok results) :
    List.Forall₂ (fun item result => step item = .ok result) items results := by
  induction items generalizing results with
  | nil =>
    cases h
    exact .nil
  | cons first rest ih =>
    rw [List.mapM_cons] at h
    obtain ⟨head, one, h⟩ := bind_eq_ok.1 h
    obtain ⟨tail, others, rfl⟩ := return_eq_ok.1 h
    exact .cons one (ih others)

/-- A result of a run comes from the item at its place. -/
theorem exists_item_of_mapM_eq_ok {step : α → Except Error β} {results : List β} {result : β}
    {place : Nat} (h : items.mapM step = .ok results) (here : results[place]? = some result) :
    ∃ item, items[place]? = some item ∧ step item = .ok result := by
  obtain ⟨size, each⟩ := mapM_eq_ok h
  have small : place < items.length := by
    rw [← size]
    exact (List.getElem?_eq_some_iff.1 here).1
  obtain ⟨other, done, there⟩ := each place items[place] (List.getElem?_eq_getElem small)
  rw [here] at there
  cases there
  exact ⟨items[place], List.getElem?_eq_getElem small, done⟩

theorem exists_of_mapM_eq_ok {step : α → Except Error β} {results : List β} {item : α}
    (h : items.mapM step = .ok results) (member : item ∈ items) :
    ∃ result ∈ results, step item = .ok result := by
  obtain ⟨i, here⟩ := List.mem_iff_getElem?.1 member
  obtain ⟨result, done, there⟩ := (mapM_eq_ok h).2 i item here
  exact ⟨result, List.mem_of_getElem? there, done⟩

/-- A run of steps that succeed under a condition succeeds if the condition holds for every item. -/
theorem mapM_eq_ok_iff {step : α → Except Error β} {fits : α → Prop} {value : α → β}
    (each : ∀ item result, step item = .ok result ↔ fits item ∧ value item = result)
    {results : List β} :
    items.mapM step = .ok results ↔ (∀ item ∈ items, fits item) ∧ items.map value = results := by
  induction items generalizing results with
  | nil => simp [pure, Except.pure]
  | cons first rest ih =>
    simp only [List.mapM_cons, bind_eq_ok, each, ih, List.forall_mem_cons, List.map_cons, pure,
      Except.pure, Except.ok.injEq]
    constructor
    · rintro ⟨_, ⟨here, rfl⟩, _, ⟨later, rfl⟩, rfl⟩
      exact ⟨⟨here, later⟩, rfl⟩
    · rintro ⟨⟨here, later⟩, rfl⟩
      exact ⟨_, ⟨here, rfl⟩, _, ⟨later, rfl⟩, rfl⟩

/-- A run succeeds if the step for every item does. -/
theorem exists_mapM_eq_ok {step : α → Except Error β}
    (each : ∀ item ∈ items, ∃ result, step item = .ok result) :
    ∃ results, items.mapM step = .ok results := by
  induction items with
  | nil => exact ⟨[], rfl⟩
  | cons item rest ih =>
    obtain ⟨one, others⟩ := List.forall_mem_cons.1 each
    obtain ⟨result, here⟩ := one
    obtain ⟨results, there⟩ := ih others
    rw [List.mapM_cons]
    exact ⟨_, bind_eq_ok.2 ⟨result, here, return_eq_ok.2 ⟨results, there, rfl⟩⟩⟩

/-- Where steps fail for one reason only, so does a run. -/
theorem mapM_ok_or {cause : Error} {step : α → Except Error β}
    (each : ∀ item ∈ items, (∃ result, step item = .ok result) ∨ step item = .error cause) :
    (∃ results, items.mapM step = .ok results) ∨ items.mapM step = .error cause := by
  induction items with
  | nil => exact .inl ⟨[], rfl⟩
  | cons first rest ih =>
    obtain ⟨one, others⟩ := List.forall_mem_cons.1 each
    rw [List.mapM_cons]
    rcases one with ⟨head, here⟩ | failed
    · rcases ih others with ⟨tail, there⟩ | failed
      · exact .inl ⟨_, bind_eq_ok.2 ⟨head, here, return_eq_ok.2 ⟨tail, there, rfl⟩⟩⟩
      · rw [here, failed]
        exact .inr rfl
    · rw [failed]
      exact .inr rfl

/-- Numbers of which each has to fit in a word. -/
theorem mapM_inWord_eq_ok {numbers words : List Nat} :
    numbers.mapM inWord = .ok words ↔ (∀ number ∈ numbers, number < wordLimit) ∧ numbers = words := by
  rw [mapM_eq_ok_iff fun _ _ => inWord_eq_ok, List.map_id']

variable {step : β → α → Except Error β} {start result : β} (P : β → Prop)

/-- What the step for every item keeps is kept by a run. -/
theorem foldlM_keeps_mem (h : items.foldlM step start = .ok result)
    (keeps : ∀ before item after, item ∈ items → step before item = .ok after → P before → P after)
    (first : P start) : P result := by
  induction items generalizing start with
  | nil =>
    cases h
    exact first
  | cons item rest ih =>
    rw [List.foldlM_cons] at h
    obtain ⟨next, one, h⟩ := bind_eq_ok.1 h
    have later := fun before other after member => keeps before other after
      (List.mem_cons_of_mem item member)
    exact ih h later (keeps start item next List.mem_cons_self one first)

/-- What every step keeps is kept by a run. -/
theorem foldlM_keeps (h : items.foldlM step start = .ok result)
    (keeps : ∀ before item after, step before item = .ok after → P before → P after)
    (first : P start) : P result :=
  foldlM_keeps_mem P h (fun before item after _ => keeps before item after) first

/-- What one step reaches and the others keep is reached by a run. -/
theorem foldlM_reaches {item : α} (h : items.foldlM step start = .ok result)
    (keeps : ∀ before item after, step before item = .ok after → P before → P after)
    (reaches : ∀ before after, step before item = .ok after → P after) (member : item ∈ items) :
    P result := by
  obtain ⟨earlier, later, rfl⟩ := List.append_of_mem member
  rw [List.foldlM_append] at h
  obtain ⟨before, -, h⟩ := bind_eq_ok.1 h
  rw [List.foldlM_cons] at h
  obtain ⟨after, here, h⟩ := bind_eq_ok.1 h
  exact foldlM_keeps P h keeps (reaches before after here)

/-- Where every step adds something to a list, a run adds all of it, in some order. -/
theorem foldlM_perm {κ : Type} (list : β → List κ) (added : α → List κ)
    (h : items.foldlM step start = .ok result)
    (adds : ∀ before item after, step before item = .ok after →
      (list after).Perm (added item ++ list before)) :
    (list result).Perm (items.flatMap added ++ list start) := by
  induction items generalizing start with
  | nil =>
    cases h
    exact .refl _
  | cons item rest ih =>
    rw [List.foldlM_cons] at h
    obtain ⟨next, one, h⟩ := bind_eq_ok.1 h
    have later := (ih h).trans ((adds start item next one).append_left _)
    rw [List.flatMap_cons, ← List.append_assoc] at *
    exact later.trans (List.perm_append_comm.append_right _)

/-! ## Steps that change a state -/

/-- A step on a state succeeds after another one exactly if both succeed. -/
theorem state_bind_eq_ok {first : EStateM ε σ α} {next : α → EStateM ε σ β}
    {before after : σ} {result : β} :
    (first >>= next) before = .ok result after ↔
      ∃ value middle, first before = .ok value middle ∧ next value middle = .ok result after := by
  simp only [bind, EStateM.bind]
  rcases first before with ⟨value, middle⟩ | ⟨error, middle⟩
  · constructor
    · intro h
      exact ⟨value, middle, rfl, h⟩
    · rintro ⟨_, _, ⟨⟩, h⟩
      exact h
  · constructor
    · rintro ⟨⟩
    · rintro ⟨_, _, ⟨⟩, _⟩

/-- It fails if one of them does. -/
theorem state_bind_eq_error {first : EStateM ε σ α} {next : α → EStateM ε σ β}
    {before after : σ} {error : ε} :
    (first >>= next) before = .error error after ↔ first before = .error error after ∨
      ∃ value middle, first before = .ok value middle ∧ next value middle = .error error after := by
  simp only [bind, EStateM.bind]
  rcases first before with ⟨value, middle⟩ | ⟨cause, middle⟩
  · constructor
    · intro h
      exact .inr ⟨value, middle, rfl, h⟩
    · rintro (h | ⟨_, _, one, h⟩)
      · cases h
      · cases one
        exact h
  · constructor
    · intro h
      cases h
      exact .inl rfl
    · rintro (h | ⟨_, _, one, -⟩)
      · cases h
        rfl
      · cases one

/-- What comes of two steps in a row, where it is known what comes of the first one. -/
theorem state_bind_of_ok {first : EStateM ε σ α} {next : α → EStateM ε σ β} {before after : σ}
    {value : α} (h : first before = .ok value after) :
    (first >>= next) before = next value after := by
  simp only [bind, EStateM.bind, h]

theorem state_bind_of_error {first : EStateM ε σ α} {next : α → EStateM ε σ β} {before after : σ}
    {error : ε} (h : first before = .error error after) :
    (first >>= next) before = .error error after :=
  state_bind_eq_error.2 (.inl h)

/-- The state that a step leaves, whether it succeeds or fails. -/
def lastState : EStateM.Result ε σ α → σ
  | .ok _ state => state
  | .error _ state => state

theorem discard_eq_ok {step : EStateM ε σ α} {before after : σ} :
    discard step before = .ok () after ↔ ∃ value, step before = .ok value after := by
  unfold discard
  simp only [Functor.mapConst, EStateM.map, Function.comp]
  rcases step before with ⟨value, last⟩ | ⟨error, last⟩
  · simp
  · simp

/-- A step that gives a result, whatever the state it leaves, succeeds. -/
theorem exists_of_run' {step : EStateM ε σ α} {before : σ} {result : α}
    (h : step.run' before = some result) : ∃ after, step before = .ok result after := by
  delta EStateM.run' EStateM.run at h
  rcases ran : step before with ⟨value, after⟩ | ⟨error, after⟩
  · rw [ran] at h
    cases h
    exact ⟨after, rfl⟩
  · rw [ran] at h
    cases h

/-- A step that succeeds and is followed by a look at the state leaves a state that looks so. -/
theorem exists_after_of_run' {step : EStateM ε σ Unit} {look : σ → α} {before : σ} {seen : α}
    (h : (do step; return look (← get) : EStateM ε σ α).run' before = some seen) :
    ∃ after, step before = .ok () after ∧ look after = seen := by
  obtain ⟨last, h⟩ := exists_of_run' h
  obtain ⟨⟨⟩, after, ran, h⟩ := state_bind_eq_ok.1 h
  obtain ⟨rfl, -⟩ := EStateM.Result.ok.inj h
  exact ⟨after, ran, rfl⟩

/-- What every step keeps, in view of the items so far, is kept by a run. -/
theorem forM_keeps (P : List α → σ → Prop) {step : α → EStateM ε σ Unit} {before after : σ}
    (h : items.forM step before = .ok () after)
    (keeps : ∀ seen item before after, step item before = .ok () after → P seen before →
      P (seen ++ [item]) after)
    {seen : List α} (first : P seen before) : P (seen ++ items) after := by
  induction items generalizing seen before with
  | nil =>
    cases h
    rw [List.append_nil]
    exact first
  | cons item rest ih =>
    have h : (step item >>= fun _ => rest.forM step) before = .ok () after := h
    obtain ⟨⟨⟩, middle, one, h⟩ := state_bind_eq_ok.1 h
    rw [List.append_cons]
    exact ih h (keeps seen item before middle one first)

/-- The same for what does not speak of the items. -/
theorem forM_preserves (P : σ → Prop) {step : α → EStateM ε σ Unit} {before after : σ}
    (h : items.forM step before = .ok () after)
    (keeps : ∀ item before after, step item before = .ok () after → P before → P after)
    (first : P before) : P after :=
  @forM_keeps α ε σ items (fun _ => P) step before after h (fun _ => keeps) [] first

/-- A run through two lists is one through the first and then one through the second. -/
theorem forM_append_eq_ok {first second : List α} {step : α → EStateM ε σ Unit}
    {before after : σ} :
    (first ++ second).forM step before = .ok () after ↔ ∃ middle,
      first.forM step before = .ok () middle ∧ second.forM step middle = .ok () after := by
  have split : (first ++ second).forM step = first.forM step >>= fun _ => second.forM step :=
    List.forM_append
  rw [split, state_bind_eq_ok]
  exact ⟨fun ⟨_, middle, run⟩ => ⟨middle, run⟩, fun ⟨middle, run⟩ => ⟨(), middle, run⟩⟩

/-- A run that fails comes to an item whose step fails. -/
theorem forM_eq_error {step : α → EStateM ε σ Unit} {before after : σ} {error : ε}
    (h : items.forM step before = .error error after) :
    ∃ seen item rest middle, items = seen ++ item :: rest ∧
      seen.forM step before = .ok () middle ∧ step item middle = .error error after := by
  induction items generalizing before with
  | nil => cases h
  | cons item rest ih =>
    have h : (step item >>= fun _ => rest.forM step) before = .error error after := h
    rcases state_bind_eq_error.1 h with here | ⟨⟨⟩, middle, one, later⟩
    · exact ⟨[], item, rest, before, rfl, rfl, here⟩
    · obtain ⟨seen, last, others, stop, rfl, run, fails⟩ := ih later
      refine ⟨item :: seen, last, others, stop, rfl, ?_, fails⟩
      exact state_bind_eq_ok.2 ⟨(), middle, one, run⟩

/-- A run that comes to an item whose step fails stops there. -/
theorem forM_of_error {step : α → EStateM ε σ Unit} {before middle after : σ} {error : ε}
    {seen : List α} {item : α} (run : seen.forM step before = .ok () middle)
    (fails : step item middle = .error error after) (rest : List α) :
    (seen ++ item :: rest).forM step before = .error error after := by
  have split : (seen ++ item :: rest).forM step =
      seen.forM step >>= fun _ => (item :: rest).forM step := List.forM_append
  rw [split, state_bind_of_ok run]
  exact state_bind_of_error fails

/-! ## Two lists of one length -/

/-- Where two lists of one length get one more item each, the two items at a place are both of those
before or both the new ones. -/
theorem getElem?_concat_pair {first : List α} {second : List β} (size : first.length = second.length)
    {newFirst one : α} {newSecond two : β} {place : Nat}
    (here : (first ++ [newFirst])[place]? = some one)
    (there : (second ++ [newSecond])[place]? = some two) :
    first[place]? = some one ∧ second[place]? = some two ∨ one = newFirst ∧ two = newSecond := by
  by_cases earlier : place < first.length
  · rw [List.getElem?_append_left earlier] at here
    rw [List.getElem?_append_left (by rw [← size]; exact earlier)] at there
    exact .inl ⟨here, there⟩
  · have last : place = first.length := by
      have small := (List.getElem?_eq_some_iff.1 here).1
      rw [List.length_append, List.length_singleton] at small
      exact Nat.le_antisymm (Nat.le_of_lt_succ small) (Nat.le_of_not_lt earlier)
    rw [last, List.getElem?_concat_length] at here
    rw [last, size, List.getElem?_concat_length] at there
    exact .inr ⟨(Option.some.inj here).symm, (Option.some.inj there).symm⟩

/-- The items of two lists that stand at one position are related. -/
theorem getElem?_of_forall₂ {R : α → β → Prop} {one : List α} {two : List β}
    (all : List.Forall₂ R one two) {position : Nat} {first : α} {second : β}
    (here : one[position]? = some first) (there : two[position]? = some second) :
    R first second := by
  obtain ⟨small, rfl⟩ := List.getElem?_eq_some_iff.1 here
  obtain ⟨small', rfl⟩ := List.getElem?_eq_some_iff.1 there
  exact all.get small small'

/-- An item has its counterpart at the same position. -/
theorem exists_of_forall₂ {R : α → β → Prop} {one : List α} {two : List β}
    (all : List.Forall₂ R one two) {position : Nat} {first : α}
    (here : one[position]? = some first) :
    ∃ second, two[position]? = some second ∧ R first second := by
  have small : position < two.length := by
    rw [← all.length_eq]
    exact (List.getElem?_eq_some_iff.1 here).1
  have there : two[position]? = some two[position] := List.getElem?_eq_getElem small
  exact ⟨_, there, getElem?_of_forall₂ all here there⟩

/-- The results of what gives a result for every item stand side by side with the items. -/
theorem forall₂_filterMap {choose : α → Option β} (all : ∀ item ∈ items, (choose item).isSome) :
    List.Forall₂ (fun item result => choose item = some result) items (items.filterMap choose) := by
  induction items with
  | nil => exact .nil
  | cons item rest ih =>
    obtain ⟨one, others⟩ := List.forall_mem_cons.1 all
    obtain ⟨result, chosen⟩ := Option.isSome_iff_exists.1 one
    rw [List.filterMap_cons_some chosen]
    exact .cons chosen (ih others)

end StaticLink
