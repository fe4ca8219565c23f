import StaticLink.Proofs.Steps

/-!
# Inputs under other names

The inputs of a link have names, which errors tell. A step does the same where inputs have other
names if its result is the same up to these names, and its error is the same up to these names.

* `Error.rename`: an error where the inputs have other names.
* `Renames`: a step and what it is where the inputs have other names, with lemmas for the ways in
  which steps are put together.
* `StateRenames`: the same for steps that change a state.
-/

namespace StaticLink

/-- The limitation where inputs have other names. -/
def Limitation.rename (f : String → String) : Limitation → Limitation
  | .eventSymbol index module => .eventSymbol index (f module)
  | .initializerNotFunction symbol module => .initializerNotFunction symbol (f module)
  | .slotOutsideElements slot module => .slotOutsideElements slot (f module)
  | limitation => limitation

/-- The error where inputs have other names. -/
def Error.rename (f : String → String) : Error → Error
  | .input name cause => .input (f name) (cause.rename f)
  | .symbolConflict name existing new => .symbolConflict name (f existing) (f new)
  | .kindMismatch name existing existingKind new newKind =>
    .kindMismatch name (f existing) existingKind (f new) newKind
  | .unsupported limitation => .unsupported (limitation.rename f)
  | error => error

variable {f : String → String} {α β γ δ ι κ σ τ : Type}

/-! ## Steps -/

/-- The step `other` is `step` where inputs have other names: its result is the one that `change`
gives, or its error is the renamed one. -/
def Renames (f : String → String) (change : α → β) (step : Except Error α)
    (other : Except Error β) : Prop :=
  other = (step.map change).mapError (Error.rename f)

namespace Renames

variable {change : α → β} {step : Except Error α} {other : Except Error β}

theorem ok (value : α) : Renames f change (.ok value) (.ok (change value)) := rfl

theorem pure (value : α) : Renames f change (Pure.pure value) (Pure.pure (change value)) := rfl

theorem error (cause : Error) : Renames f change (.error cause) (.error (cause.rename f)) := rfl

theorem throw (cause : Error) :
    Renames f change (MonadExcept.throw cause) (MonadExcept.throw (cause.rename f)) := rfl

theorem existing (value : Option α) :
    Renames f change (StaticLink.existing value) (StaticLink.existing (value.map change)) := by
  cases value <;> rfl

theorem inWord (number : Nat) :
    Renames f id (StaticLink.inWord number) (StaticLink.inWord number) := by
  unfold StaticLink.inWord
  split
  · exact ok number
  · exact error .overflow

theorem bind {next : α → Except Error γ} {next' : β → Except Error δ} {change' : γ → δ}
    (first : Renames f change step other)
    (second : ∀ value, Renames f change' (next value) (next' (change value))) :
    Renames f change' (step >>= next) (other >>= next') := by
  rw [first]
  cases step with
  | error cause => rfl
  | ok value => exact second value

/-- A step whose result is only changed. -/
theorem map {after : α → γ} {after' : β → δ} {change' : γ → δ}
    (first : Renames f change step other)
    (same : ∀ value, after' (change value) = change' (after value)) :
    Renames f change' (do return after (← step)) (do return after' (← other)) := by
  refine first.bind fun value => ?_
  rw [same]
  exact pure _

/-- Where nothing is looked at but what has no names in it, the same way is taken. -/
theorem ite {condition : Prop} [Decidable condition] {one two : Except Error α}
    {one' two' : Except Error β} (yes : Renames f change one one')
    (no : Renames f change two two') :
    Renames f change (if condition then one else two) (if condition then one' else two') := by
  split
  · exact yes
  · exact no

/-- As `ite`, where the same follows either way. -/
theorem ite_bind {condition : Prop} [Decidable condition] {one two : Except Error α}
    {one' two' : Except Error β} {next : α → Except Error γ} {next' : β → Except Error δ}
    {change' : γ → δ} (yes : Renames f change one one') (no : Renames f change two two')
    (second : ∀ value, Renames f change' (next value) (next' (change value))) :
    Renames f change' (if condition then one >>= next else two >>= next)
      (if condition then one' >>= next' else two' >>= next') :=
  ite (yes.bind second) (no.bind second)

variable {place : ι → κ} {items : List ι}

theorem mapM {one : ι → Except Error α} {two : κ → Except Error β}
    (each : ∀ item ∈ items, Renames f change (one item) (two (place item))) :
    Renames f (List.map change) (items.mapM one) ((items.map place).mapM two) := by
  induction items with
  | nil => exact pure []
  | cons item rest ih =>
    obtain ⟨first, others⟩ := List.forall_mem_cons.1 each
    rw [List.mapM_cons, List.map_cons, List.mapM_cons]
    exact first.bind fun value => (ih others).map fun _ => rfl

theorem foldlM {one : α → ι → Except Error α} {two : β → κ → Except Error β}
    (each : ∀ before, ∀ item ∈ items,
      Renames f change (one before item) (two (change before) (place item))) (start : α) :
    Renames f change (items.foldlM one start) ((items.map place).foldlM two (change start)) := by
  induction items generalizing start with
  | nil => exact pure start
  | cons item rest ih =>
    rw [List.foldlM_cons, List.map_cons, List.foldlM_cons]
    refine (each start item List.mem_cons_self).bind fun next => ?_
    exact ih (fun before other member => each before other (List.mem_cons_of_mem _ member)) next

/-- Results that are the same are not changed item by item either. -/
theorem mapM_id {one : ι → Except Error α} {two : κ → Except Error α}
    (each : ∀ item ∈ items, Renames f id (one item) (two (place item))) :
    Renames f id (items.mapM one) ((items.map place).mapM two) := by
  have all := mapM each
  rw [List.map_id_fun] at all
  exact all

/-- A run through items without names. -/
theorem mapM_items {one two : ι → Except Error α}
    (each : ∀ item ∈ items, Renames f id (one item) (two item)) :
    Renames f id (items.mapM one) (items.mapM two) := by
  have all : Renames f id (items.mapM one) ((items.map id).mapM two) := mapM_id each
  rw [List.map_id] at all
  exact all

theorem foldlM_items {one : α → ι → Except Error α} {two : β → ι → Except Error β}
    (each : ∀ before, ∀ item ∈ items,
      Renames f change (one before item) (two (change before) item)) (start : α) :
    Renames f change (items.foldlM one start) (items.foldlM two (change start)) := by
  have all : Renames f change (items.foldlM one start) ((items.map id).foldlM two (change start)) :=
    foldlM each start
  rw [List.map_id] at all
  exact all

/-- Two steps that become the same one where inputs have other names. -/
theorem agree {one two shared : Except Error α} (left : Renames f id one shared)
    (right : Renames f id two shared) :
    (∀ value, one = .ok value → two = .ok value) ∧
      ∀ cause, one = .error cause →
        ∃ cause', two = .error cause' ∧ cause'.rename f = cause.rename f := by
  have same : (two.map id).mapError (Error.rename f) = (one.map id).mapError (Error.rename f) :=
    right.symm.trans left
  refine ⟨?_, ?_⟩
  · rintro value rfl
    cases two with
    | ok value' =>
      cases same
      rfl
    | error cause => cases same
  · rintro cause rfl
    cases two with
    | ok value => cases same
    | error cause' => exact ⟨cause', rfl, Except.error.inj same⟩

end Renames

/-! ## Steps that change a state -/

/-- As `Renames`, for a step that changes a state, which is `states` of the other one where inputs
have other names. -/
def StateRenames (f : String → String) (states : σ → τ) (change : α → β)
    (step : EStateM Error σ α) (other : EStateM Error τ β) : Prop :=
  ∀ before, (∀ value after, step before = .ok value after →
      other (states before) = .ok (change value) (states after)) ∧
    ∀ cause after, step before = .error cause after →
      other (states before) = .error (cause.rename f) (states after)

theorem discard_eq_bind (step : EStateM Error σ α) :
    discard step = step >>= fun _ => pure () := by
  funext before
  show EStateM.map _ step before = EStateM.bind step _ before
  unfold EStateM.map EStateM.bind
  cases step before <;> rfl

namespace StateRenames

variable {states : σ → τ} {change : α → β} {step : EStateM Error σ α} {other : EStateM Error τ β}

theorem pure (value : α) :
    StateRenames f states change (Pure.pure value) (Pure.pure (change value)) := by
  refine fun before => ⟨?_, ?_⟩
  · rintro _ _ ⟨⟩
    rfl
  · rintro _ _ ⟨⟩

theorem throw (cause : Error) :
    StateRenames f states change (MonadExcept.throw cause)
      (MonadExcept.throw (cause.rename f)) := by
  refine fun before => ⟨?_, ?_⟩
  · rintro _ _ ⟨⟩
  · rintro _ _ ⟨⟩
    rfl

theorem get : StateRenames f states states MonadState.get MonadState.get := by
  refine fun before => ⟨?_, ?_⟩
  · rintro _ _ ⟨⟩
    rfl
  · rintro _ _ ⟨⟩

theorem set (state : σ) : StateRenames f states id (MonadStateOf.set state)
    (MonadStateOf.set (states state)) := by
  refine fun before => ⟨?_, ?_⟩
  · rintro _ _ ⟨⟩
    rfl
  · rintro _ _ ⟨⟩

theorem ite {condition : Prop} [Decidable condition] {one two : EStateM Error σ α}
    {one' two' : EStateM Error τ β} (yes : StateRenames f states change one one')
    (no : StateRenames f states change two two') :
    StateRenames f states change (if condition then one else two)
      (if condition then one' else two') := by
  split
  · exact yes
  · exact no

theorem modifies {one : σ → σ} {two : τ → τ}
    (same : ∀ state, two (states state) = states (one state)) :
    StateRenames f states id (modify one) (modify two) := by
  refine fun before => ⟨?_, ?_⟩
  · rintro _ _ ⟨⟩
    exact congrArg (EStateM.Result.ok ()) (same before)
  · rintro _ _ ⟨⟩

theorem bind {next : α → EStateM Error σ γ} {next' : β → EStateM Error τ δ} {change' : γ → δ}
    (first : StateRenames f states change step other)
    (second : ∀ value, StateRenames f states change' (next value) (next' (change value))) :
    StateRenames f states change' (step >>= next) (other >>= next') := by
  refine fun before => ⟨?_, ?_⟩
  · intro result after h
    obtain ⟨value, middle, one, two⟩ := state_bind_eq_ok.1 h
    exact state_bind_eq_ok.2 ⟨change value, states middle, (first before).1 value middle one,
      (second value middle).1 result after two⟩
  · intro cause after h
    rcases state_bind_eq_error.1 h with one | ⟨value, middle, one, two⟩
    · exact state_bind_eq_error.2 (.inl ((first before).2 cause after one))
    · exact state_bind_eq_error.2 (.inr ⟨change value, states middle,
        (first before).1 value middle one, (second value middle).2 cause after two⟩)

theorem discard (first : StateRenames f states change step other) :
    StateRenames f states id (discard step) (discard other) := by
  rw [discard_eq_bind, discard_eq_bind]
  exact first.bind fun _ => pure ()

theorem forM {items : List ι} {place : ι → κ} {one : ι → EStateM Error σ Unit}
    {two : κ → EStateM Error τ Unit}
    (each : ∀ item ∈ items, StateRenames f states id (one item) (two (place item))) :
    StateRenames f states id (items.forM one) ((items.map place).forM two) := by
  induction items with
  | nil => exact pure ()
  | cons item rest ih =>
    obtain ⟨first, others⟩ := List.forall_mem_cons.1 each
    exact first.bind fun _ => ih others

end StateRenames

end StaticLink
