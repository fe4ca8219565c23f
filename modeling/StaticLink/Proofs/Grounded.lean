import StaticLink.DataLayout
import StaticLink.Proofs.Steps

/-!
# What the steps of a link fail for

References between the parts of a link are followed with `existing`. A step is grounded if it never
meets one that leads nowhere, whether it succeeds or fails for another reason. Such a step may still
fail for a weak function that has no stub, and then the function is of interest, or for a number that
is no word, and then it is of interest why.

* `Grounded`: a step that only follows references that lead somewhere.
* `Blames`: such a step, with what is known of the weak functions and the numbers that it fails for,
  and lemmas for the ways in which steps are put together.
* `blames_fitting`, `DataLayout.blames_ofModules`: laying out data asks for no function.
-/

namespace StaticLink

/-- The step does not follow a reference that leads nowhere. -/
def Grounded {α : Type} (step : Except Error α) : Prop := step ≠ .error .dangling

/-- What is known of an error: it is none of a reference that leads nowhere. If a weak function without
a stub is its cause, then the name of the function satisfies `Q`, and if it is a number that is no
word, then `R` holds. -/
structure Error.Blamed (Q : String → Prop) (R : Prop) (cause : Error) : Prop where
  leads : cause ≠ .dangling
  function : ∀ name, cause = .unresolvedWeakFunction name → Q name
  number : cause = .overflow → R

@[simp] theorem Error.blamed_iff {Q : String → Prop} {R : Prop} {cause : Error} :
    cause.Blamed Q R ↔ cause ≠ .dangling ∧ (∀ name, cause = .unresolvedWeakFunction name → Q name) ∧
      (cause = .overflow → R) :=
  ⟨fun blamed => ⟨blamed.leads, blamed.function, blamed.number⟩,
    fun ⟨leads, function, number⟩ => ⟨leads, function, number⟩⟩

/-- This is known of the error of the step, if it fails. -/
def Blames {α : Type} (Q : String → Prop) (R : Prop) (step : Except Error α) : Prop :=
  ∀ cause, step = .error cause → cause.Blamed Q R

variable {α β : Type} {items : List α} {Q : String → Prop} {R : Prop}

namespace Blames

theorem grounded {step : Except Error α} (blames : Blames Q R step) : Grounded step :=
  fun failed => (blames .dangling failed).leads rfl

@[simp] theorem ok (value : α) : Blames Q R (.ok value) := by
  rintro cause ⟨⟩

@[simp] theorem pure (value : α) : Blames Q R (Pure.pure value : Except Error α) := ok value

theorem error {cause : Error} (other : cause.Blamed Q R) :
    Blames Q R (.error cause : Except Error α) := by
  rintro _ ⟨⟩
  exact other

theorem throw {cause : Error} (other : cause.Blamed Q R) :
    Blames Q R (MonadExcept.throw cause : Except Error α) := error other

/-- Where something exists, it is safe to ask for it. -/
theorem existing {value : Option α} {found : α} (here : value = some found) :
    Blames Q R (StaticLink.existing value) := by
  rw [here]
  exact ok found

/-- Where a number is no word, `R` has to tell why. -/
theorem inWord {number : Nat} (large : wordLimit ≤ number → R) :
    Blames Q R (StaticLink.inWord number) := by
  unfold StaticLink.inWord
  split
  · exact ok number
  · next no => exact error (by simpa using large (Nat.le_of_not_lt no))

theorem bind {first : Except Error α} {next : α → Except Error β} (one : Blames Q R first)
    (other : ∀ value, first = .ok value → Blames Q R (next value)) : Blames Q R (first >>= next) := by
  rcases first with cause | value
  · exact error (one cause rfl)
  · exact other value rfl

theorem map {first : Except Error α} (change : α → β) (one : Blames Q R first) :
    Blames Q R (do return change (← first)) := one.bind fun value _ => ok (change value)

theorem mapM {step : α → Except Error β} (each : ∀ item ∈ items, Blames Q R (step item)) :
    Blames Q R (items.mapM step) := by
  induction items with
  | nil => exact ok []
  | cons item rest ih =>
    obtain ⟨one, others⟩ := List.forall_mem_cons.1 each
    rw [List.mapM_cons]
    exact one.bind fun first _ => (ih others).map (first :: ·)

/-- What each step of a run blames wherever the run has come, the whole run blames. -/
theorem foldlM {step : β → α → Except Error β} {start : β}
    (each : ∀ before, ∀ item ∈ items, Blames Q R (step before item)) :
    Blames Q R (items.foldlM step start) := by
  induction items generalizing start with
  | nil => exact ok start
  | cons item rest ih =>
    rw [List.foldlM_cons]
    refine (each start item List.mem_cons_self).bind fun next _ => ?_
    exact ih fun before other member => each before other (List.mem_cons_of_mem _ member)

end Blames

/-! ## Laying out data -/

theorem blames_fitting (value : Option α) : Blames Q R (fitting value) := by
  cases value with
  | none => exact .error (by simp)
  | some value => exact .ok value

theorem ObjectModule.blames_checkDataRelocations (module : ObjectModule) :
    Blames Q R module.checkDataRelocations := by
  unfold checkDataRelocations
  split
  · exact .error (by simp)
  · exact .ok ()

namespace OutputSegment

theorem blames_push (segment : OutputSegment) (owner : ModuleId) (position : Nat)
    (input : DataSegment) : Blames Q R (segment.push owner position input) :=
  (blames_fitting _).bind fun _ _ => (blames_fitting _).map _

theorem blames_insert (owner : ModuleId) (position : Nat) (input : DataSegment)
    (segments : List OutputSegment) : Blames Q R (insert owner position input segments) := by
  induction segments with
  | nil => exact (blames_push _ owner position input).map _
  | cons segment rest ih =>
    unfold insert
    split
    · exact (blames_push segment owner position input).map _
    · exact ih.map _

theorem blames_pack (base : Nat) (segments : List OutputSegment) :
    Blames Q R (pack base segments) := by
  induction segments generalizing base with
  | nil => exact .ok _
  | cons segment rest ih =>
    refine (blames_fitting _).bind fun address _ => ?_
    refine (blames_fitting _).bind fun stop _ => ?_
    exact (ih stop).bind fun _ _ => .ok _

end OutputSegment

namespace DataLayout

theorem blames_merge (modules : List ObjectModule) : Blames Q R (merge modules) := by
  refine Blames.foldlM ?_
  rintro before ⟨module, owner⟩ -
  refine module.blames_checkDataRelocations.bind fun _ _ => ?_
  exact Blames.foldlM fun before item _ =>
    OutputSegment.blames_insert owner item.2 item.1 before

theorem blames_ofModules (modules : List ObjectModule) (base : Nat) :
    Blames Q R (ofModules modules base) :=
  (blames_merge modules).bind fun _ _ => (OutputSegment.blames_pack base _).map _

end DataLayout

theorem blames_stackTop (dataStop : Nat) : Blames Q R (stackTop dataStop) :=
  (blames_fitting _).bind fun _ _ => blames_fitting _

end StaticLink
