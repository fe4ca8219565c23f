import StaticLink.Proofs.Scan.Scripts

/-!
# Scans that hand their events over

The events of a file can be handed over one by one while it is scanned. What they are handed to may
refuse one of them, and this ends the scan. It has no other say in how the scan goes on, so that all
is as if the file was scanned first and its events were handed over afterwards.

* `Script.feed`: performs a step and hands over its events as they are noted.
* `Scanner.Fed`: what comes of that, in terms of the step and of its events.
* `Scanner.Within`: the events are not ahead of the bytes by more than a budget.
* `Scanner.Loops`: rounds that move forward, as long as there is more to do.
* `Scanner.feed_paced`: a whole file, whatever its events are handed to.
-/

namespace StaticLink

namespace Scanner

variable {α β σ : Type}

/-- A step of a scan, together with what the events are handed to. -/
abbrev Feeding (σ : Type) := EStateM Error (Scan × σ)

/-- A step that hands nothing over. -/
def alone (step : Scanner α) : Feeding σ α := fun (scan, state) =>
  match step scan with
  | .ok value scan => .ok value (scan, state)
  | .error fault scan => .error (.malformed fault) (scan, state)

/-- An event is noted, then it is handed over. -/
def handOver (call : Event → EStateM Error σ Unit) (event : Event) : Feeding σ Unit :=
  fun (scan, state) =>
    let scan := { scan with events := scan.events.push event }
    match call event state with
    | .ok () state => .ok () (scan, state)
    | .error failure state => .error failure (scan, state)

/-- Performs the step of a script. Each event is handed over where it is noted. -/
def Script.feed (call : Event → EStateM Error σ Unit) : {α : Type} → {budget : Nat} →
    {step : Scanner α} → Script budget step → Feeding σ α
  | _, _, _, .emit event => handOver call event
  | _, _, step, .quiet _ => alone step
  | _, _, _, @Script.after _ _ _ _ step _ _ next =>
    alone step >>= fun value => (next value).feed call
  | _, _, _, .bind first next => first.feed call >>= fun value => (next value).feed call
  | _, _, _, @Script.ite _ _ condition _ _ _ yes no =>
    if condition then yes.feed call else no.feed call

variable {budget spent least : Nat} {step : Scanner α} {rest : α → Scanner β}
  {call : Event → EStateM Error σ Unit} {before middle after : Scan} {state : σ}

theorem alone_of_ok {value : α} (h : step before = .ok value after) :
    alone step (before, state) = .ok value (after, state) := by
  simp only [alone, h]

theorem alone_of_error {fault : Fault} (h : step before = .error fault after) :
    (alone step : Feeding σ α) (before, state) = .error (.malformed fault) (after, state) := by
  simp only [alone, h]

/-! ## The same events, handed over afterwards -/

/-- What comes of a step that hands over its events, in terms of the step and of the events. -/
inductive Fed (call : Event → EStateM Error σ Unit) (step : Scanner α) (before : Scan) (state : σ) :
    EStateM.Result Error (Scan × σ) α → Prop
  | done {value : α} {after : Scan} {noted : List Event} {state' : σ} :
      step before = .ok value after →
      after.events.toList = before.events.toList ++ noted →
      noted.forM call state = .ok () state' →
        Fed call step before state (.ok value (after, state'))
  | broken {fault : Fault} {after : Scan} {noted : List Event} {state' : σ} :
      step before = .error fault after →
      after.events.toList = before.events.toList ++ noted →
      noted.forM call state = .ok () state' →
        Fed call step before state (.error (.malformed fault) (after, state'))
  /-- An event is refused. Alone, the step might have noted others after it. -/
  | refused {seen later : List Event} {event : Event} {here : Scan} {failure : Error}
      {between state' : σ} :
      (lastState (step before)).events.toList = before.events.toList ++ (seen ++ event :: later) →
      here.events.toList = before.events.toList ++ (seen ++ [event]) →
      seen.forM call state = .ok () between →
      call event between = .error failure state' →
        Fed call step before state (.error failure (here, state'))

theorem fed_alone (quiet : Quiet step least) :
    Fed call step before state (alone step (before, state)) := by
  have silent := congrArg Array.toList (quiet.silent before)
  rcases ran : step before with ⟨value, after⟩ | ⟨fault, after⟩
  · rw [ran] at silent
    rw [alone_of_ok ran]
    exact .done ran (silent.trans (List.append_nil _).symm) rfl
  · rw [ran] at silent
    rw [alone_of_error ran]
    exact .broken ran (silent.trans (List.append_nil _).symm) rfl

theorem fed_handOver (event : Event) :
    Fed call (emit event) before state (handOver call event (before, state)) := by
  unfold handOver
  dsimp only
  rcases handed : call event state with ⟨⟨⟩, state'⟩ | ⟨failure, state'⟩
  · exact .done rfl (Array.toList_push ..) (state_bind_of_ok handed)
  · exact @Fed.refused _ _ call _ before state [] [] event _ failure state state'
      (Array.toList_push ..) (Array.toList_push ..) rfl handed

/-- What a step has noted is noted still when the next step is done. -/
theorem events_bind (before : Scan) (grows : ∀ value (middle : Scan),
      middle.events.toList <+: (lastState (rest value middle)).events.toList) :
    (lastState (step before)).events.toList <+:
      (lastState ((step >>= rest) before)).events.toList := by
  rcases ran : step before with ⟨value, middle⟩ | ⟨fault, last⟩
  · rw [state_bind_of_ok ran]
    exact grows value middle
  · rw [state_bind_of_error ran]
    exact List.prefix_rfl

/-- What was noted before stays noted. -/
theorem Script.grows (script : Script budget step) (before : Scan) :
    before.events.toList <+: (lastState (step before)).events.toList := by
  induction script generalizing before with
  | emit event => exact ⟨[event], (Array.toList_push ..).symm⟩
  | quiet quiet => exact ⟨[], by rw [quiet.silent, List.append_nil]⟩
  | after quiet next ih =>
    rw [← quiet.silent before]
    exact events_bind before ih
  | bind first next ih ih' => exact (ih before).trans (events_bind before ih')
  | ite condition yes no ih ih' =>
    split
    · exact ih before
    · exact ih' before

theorem Fed.bind {first : Feeding σ α} {next : α → Feeding σ β}
    (one : Fed call step before state (first (before, state)))
    (others : ∀ value middle state',
      Fed call (rest value) middle state' (next value (middle, state')))
    (grows : ∀ value (middle : Scan),
      middle.events.toList <+: (lastState (rest value middle)).events.toList) :
    Fed call (step >>= rest) before state ((first >>= next) (before, state)) := by
  generalize result : first (before, state) = outcome at one
  cases one with
  | @done value middle noted between ran events given =>
    -- The second step goes on from where the first one left what the events are handed to.
    have other := others value middle between
    rw [state_bind_of_ok result]
    generalize next value (middle, between) = outcome at other
    cases other with
    | done ran' events' given' =>
      refine .done (state_bind_eq_ok.2 ⟨value, middle, ran, ran'⟩) ?_
        (forM_append_eq_ok.2 ⟨between, given, given'⟩)
      rw [events', events, List.append_assoc]
    | broken ran' events' given' =>
      refine .broken (state_bind_eq_error.2 (.inr ⟨value, middle, ran, ran'⟩)) ?_
        (forM_append_eq_ok.2 ⟨between, given, given'⟩)
      rw [events', events, List.append_assoc]
    | @refused seen later event here failure _ _ whole far given' refusal =>
      refine @Fed.refused _ _ call _ before state (noted ++ seen) later event here failure _ _ ?_ ?_
        (forM_append_eq_ok.2 ⟨between, given, given'⟩) refusal
      · rw [state_bind_of_ok ran, whole, events, List.append_assoc, List.append_assoc]
      · rw [far, events, List.append_assoc, List.append_assoc]
  | broken ran events given =>
    rw [state_bind_of_error result]
    exact .broken (state_bind_eq_error.2 (.inl ran)) events given
  | @refused seen later event here failure _ _ whole far given refusal =>
    rw [state_bind_of_error result]
    -- Alone, the steps behind this one may come to note more events.
    obtain ⟨added, same⟩ := events_bind before grows
    refine @Fed.refused _ _ call _ before state seen (later ++ added) event here failure _ _ ?_ far
      given refusal
    rw [← same, whole, List.append_assoc, List.append_assoc, List.cons_append]

/-- To hand events over as they are noted is to hand them over afterwards. -/
theorem Script.fed (script : Script budget step) (before : Scan) (state : σ) :
    Fed call step before state (script.feed call (before, state)) := by
  induction script generalizing before state with
  | emit event => exact fed_handOver event
  | quiet quiet => exact fed_alone quiet
  | after quiet next ih => exact (fed_alone quiet).bind ih fun value => (next value).grows
  | bind first next ih ih' => exact (ih before state).bind ih' fun value => (next value).grows
  | ite condition yes no ih ih' =>
    rw [feed]
    split
    · exact ih before state
    · exact ih' before state

/-- What succeeds where events are handed over succeeds alone. -/
theorem Script.ok_of_feed {here there : Scan × σ} {value : α} (script : Script budget step)
    (h : script.feed call here = .ok value there) : step here.1 = .ok value there.1 := by
  have fed : Fed call step here.1 here.2 (script.feed call here) := script.fed here.1 here.2
  rw [h] at fed
  cases fed with
  | done ran => exact ran

/-! ## Events and bytes -/

/-- From one scan to the other, no more events were noted than bytes were taken, and so many. -/
structure Within (before : Scan) (budget : Nat) (after : Scan) : Prop where
  ahead : before.cursor.Ahead 0 after.cursor
  few : after.events.size + before.cursor.position ≤
    before.events.size + after.cursor.position + budget

theorem Within.refl (scan : Scan) (budget : Nat) : Within scan budget scan where
  ahead := .refl _
  few := Nat.le_add_right _ _

/-- What is taken pays for what is noted then. -/
theorem Within.of_ahead (ahead : before.cursor.Ahead least middle.cursor)
    (silent : middle.events = before.events) (within : Within middle (budget + least) after) :
    Within before budget after where
  ahead := (ahead.trans within.ahead).weaken (Nat.zero_le _)
  few := by
    have taken := ahead.position_le
    have few := within.few
    rw [silent] at few
    omega

theorem Within.trans (first : Within before spent middle) (second : Within middle budget after) :
    Within before (budget + spent) after where
  ahead := first.ahead.trans second.ahead
  few := by
    have := first.few
    have := second.few
    omega

theorem within_alone (quiet : Quiet step least) :
    Within before budget (lastState (alone step (before, state))).1 := by
  have silent := quiet.silent before
  have onward := quiet.onward before
  rcases ran : step before with ⟨value, after⟩ | ⟨fault, after⟩
  · rw [ran] at silent onward
    rw [alone_of_ok ran]
    exact .of_ahead onward silent (.refl after budget)
  · rw [ran] at silent onward
    rw [alone_of_error ran]
    exact .of_ahead onward silent (.refl after budget)

theorem within_handOver (event : Event) :
    Within before (budget + 1) (lastState (handOver call event (before, state))).1 := by
  have noted : (lastState (handOver call event (before, state))).1 =
      { before with events := before.events.push event } := by
    unfold handOver
    dsimp only
    rcases call event state with ⟨⟨⟩, state'⟩ | ⟨failure, state'⟩
    · rfl
    · rfl
  rw [noted]
  refine ⟨.refl _, ?_⟩
  simp only [Array.size_push]
  omega

/-- However the script ends, it has kept to its budget. -/
theorem Script.within (script : Script budget step) (before : Scan) (state : σ) :
    Within before budget (lastState (script.feed call (before, state))).1 := by
  -- By induction for any end, as a refusal or a fault may come in the middle of any part.
  induction script generalizing before state with
  | emit event => exact within_handOver event
  | quiet quiet => exact within_alone quiet
  | @after _ _ budget _ step _ quiet next ih =>
    rw [feed]
    rcases ran : step before with ⟨value, middle⟩ | ⟨fault, last⟩
    · have silent := quiet.silent before
      rw [ran] at silent
      rw [state_bind_of_ok (alone_of_ok ran)]
      exact .of_ahead (quiet.takes before value middle ran) silent (ih value middle state)
    · have one := @within_alone _ σ budget _ step before state quiet
      rw [alone_of_error ran] at one
      rw [state_bind_of_error (alone_of_error ran)]
      exact one
  | @bind _ _ budget _ _ _ first next ih ih' =>
    have one := ih before state
    rw [feed]
    rcases ran : first.feed call (before, state) with ⟨value, middle, state'⟩ | ⟨failure, last⟩
    · rw [ran] at one
      rw [state_bind_of_ok ran]
      exact one.trans (ih' value middle state')
    · rw [ran] at one
      rw [state_bind_of_error ran]
      exact one.trans (.refl _ budget)
  | ite condition yes no ih ih' =>
    rw [feed]
    split
    · exact ih before state
    · exact ih' before state

/-- A script that takes bytes first has taken them when it is done. -/
theorem Script.ahead_of_after {here there : Scan × σ} {value : β} (quiet : Quiet step least)
    (next : ∀ value, Script (budget + least) (rest value))
    (h : (Script.after quiet next).feed call here = .ok value there) :
    here.1.cursor.Ahead least there.1.cursor := by
  obtain ⟨found, middle, one, two⟩ := state_bind_eq_ok.1 h
  have one : (Script.quiet quiet : Script 0 step).feed call here = .ok found middle := one
  have taken : here.1.cursor.Ahead least middle.1.cursor := quiet.takes _ found _ (ok_of_feed _ one)
  have within : Within middle.1 (budget + least) (lastState ((next found).feed call middle)).1 :=
    (next found).within middle.1 middle.2
  rw [two] at within
  exact taken.trans within.ahead

/-! ## Loops -/

/-- As long as there is more to do, there are rounds, and each of them fails or moves forward. In
the end a round has failed or there is no more to do. -/
inductive Loops (more : Scan → Bool) (round : Feeding σ Unit) :
    Scan × σ → EStateM.Result Error (Scan × σ) Unit → Prop
  | complete {here : Scan × σ} : more here.1 = false → Loops more round here (.ok () here)
  | failed {here last : Scan × σ} {failure : Error} : more here.1 = true →
      round here = .error failure last → Loops more round here (.error failure last)
  | again {here next : Scan × σ} {result : EStateM.Result Error (Scan × σ) Unit} :
      more here.1 = true → round here = .ok () next →
      here.1.cursor.position < next.1.cursor.position → Loops more round next result →
        Loops more round here result

variable {more : Scan → Bool} {round : Feeding σ Unit}

/-- A limit on the rounds ends none of them early where it is as large as a measure of what is left
to do, which each round makes smaller. -/
theorem loops_of_limit {loop : Nat → Feeding σ Unit} (left : Scan → Nat)
    (zero : ∀ here, loop 0 here = .ok () here)
    (succ : ∀ limit here, loop (limit + 1) here =
      if more here.1 then (round >>= fun _ => loop limit) here else .ok () here)
    (none : ∀ scan, left scan = 0 → more scan = false)
    (moves : ∀ here next, more here.1 = true → round here = .ok () next →
      here.1.cursor.position < next.1.cursor.position ∧ left next.1 < left here.1)
    {limit : Nat} {here : Scan × σ} (enough : left here.1 ≤ limit) :
    Loops more round here (loop limit here) := by
  induction limit generalizing here with
  | zero =>
    rw [zero]
    exact .complete (none here.1 (Nat.le_zero.1 enough))
  | succ limit ih =>
    rw [succ]
    split
    · next goes =>
      rcases ran : round here with ⟨⟨⟩, next⟩ | ⟨failure, last⟩
      · obtain ⟨forward, smaller⟩ := moves here next goes ran
        rw [state_bind_of_ok ran]
        exact .again goes ran forward (ih (by omega))
      · rw [state_bind_of_error ran]
        exact .failed goes ran
    · next stops => exact .complete (Bool.eq_false_iff.2 stops)

theorem loops_sections (here : Scan × σ) :
    Loops (fun scan => !scan.cursor.atEnd) (Script.oneSection.feed call) here
      ((Script.sectionsUpTo here.1.cursor.rest.length).feed call here) := by
  refine @loops_of_limit σ _ _ (fun limit => (Script.sectionsUpTo limit).feed call)
    (fun scan => scan.cursor.rest.length) (fun _ => rfl) ?_ ?_ ?_ _ here (Nat.le_refl _)
  · intro limit here
    -- The loop stops where the rounds go on, and the other way round.
    show (if here.1.cursor.atEnd = true then alone (pure ()) else
      Script.oneSection.feed call >>= fun _ => (Script.sectionsUpTo limit).feed call :
        Feeding σ Unit) here = _
    cases here.1.cursor.atEnd
    · rfl
    · rfl
  · intro scan none
    rw [Cursor.atEnd, List.length_eq_zero_iff.1 none]
    rfl
  · intro here next _ ran
    have ahead := Script.ahead_of_after _ _ ran
    have := ahead.position_le
    have := ahead.length_le
    omega

theorem loops_subsections {entries : UInt8 → Nat → Scanner Unit}
    (each : ∀ kind stop, Script 0 (entries kind stop)) (stop : Nat) (here : Scan × σ) :
    Loops (fun scan => decide (scan.cursor.position < stop))
      ((Script.oneSubsection each stop).feed call) here
      ((Script.subsections each stop).feed call here) := by
  refine @loops_of_limit σ _ _ (fun limit => (Script.subsectionsUpTo each stop limit).feed call)
    (fun scan => stop - scan.cursor.position) (fun _ => rfl) ?_ ?_ ?_ _ here (Nat.le_refl _)
  · intro limit here
    -- In the loop what follows a round stands inside of its last step.
    have inside : (Script.subsectionsUpTo each stop (limit + 1)).feed call here =
        (if here.1.cursor.position < stop then do
          let header ← alone (liftM (subsectionHeader stop))
          (each header.1 header.2).feed call
          alone (liftM (Reader.expectAt header.2))
          (Script.subsectionsUpTo each stop limit).feed call
        else alone (pure ()) : Feeding σ Unit) here := rfl
    have round : (Script.oneSubsection each stop).feed call = (do
        let header ← alone (liftM (subsectionHeader stop))
        (each header.1 header.2).feed call
        alone (liftM (Reader.expectAt header.2))) := rfl
    rw [inside, round]
    simp only [bind_assoc, decide_eq_true_eq]
    split
    · rfl
    · rfl
  · intro scan none
    simp only [decide_eq_false_iff_not]
    omega
  · intro here next more ran
    have ahead := Script.ahead_of_after _ _ ran
    have := ahead.position_le
    have := of_decide_eq_true more
    omega

/-! ## Whole files -/

/-- What comes of events, with a scan beside it. -/
def beside {ε : Type} (scan : Scan) : EStateM.Result ε σ α → EStateM.Result ε (Scan × σ) α
  | .ok value state => .ok value (scan, state)
  | .error failure state => .error failure (scan, state)

theorem lastState_beside {ε : Type} (scan : Scan) (result : EStateM.Result ε σ α) :
    lastState (beside scan result) = (scan, lastState result) := by
  cases result with
  | ok => rfl
  | error => rfl

theorem events_ofBytes (bytes : Bytes) : (Transcript.ofBytes bytes).events =
    (lastState (module { cursor := .ofBytes bytes })).events.toList := by
  unfold Transcript.ofBytes
  rcases module { cursor := .ofBytes bytes } with ⟨value, last⟩ | ⟨fault, last⟩
  · rfl
  · rfl

/-- To hand over the events of a file as they are noted is to hand them over afterwards. -/
theorem exists_beside_forEach (bytes : Bytes) (call : Event → EStateM Error σ Unit) (state : σ) :
    ∃ last, Script.module.feed call ({ cursor := .ofBytes bytes }, state) =
      beside last ((Transcript.ofBytes bytes).forEach call state) := by
  have fed : Fed call module { cursor := .ofBytes bytes } state _ :=
    Script.module.fed { cursor := .ofBytes bytes } state
  generalize Script.module.feed call ({ cursor := .ofBytes bytes }, state) = outcome at fed
  cases fed with
  | @done value after noted state' ran events given =>
    have file : Transcript.ofBytes bytes = ⟨noted, none⟩ := by
      unfold Transcript.ofBytes
      rw [ran]
      exact congrArg (Transcript.mk · none) events
    refine ⟨after, ?_⟩
    rw [file, Transcript.forEach, state_bind_of_ok given]
    rfl
  | @broken fault after noted state' ran events given =>
    have file : Transcript.ofBytes bytes = ⟨noted, some fault⟩ := by
      unfold Transcript.ofBytes
      rw [ran]
      exact congrArg (Transcript.mk · (some fault)) events
    refine ⟨after, ?_⟩
    rw [file, Transcript.forEach, state_bind_of_ok given]
    rfl
  | @refused seen later event here failure _ _ whole _ given refusal =>
    have file : (Transcript.ofBytes bytes).events = seen ++ event :: later :=
      (events_ofBytes bytes).trans whole
    refine ⟨here, ?_⟩
    rw [Transcript.forEach, file, state_bind_of_error (forM_of_error given refusal later)]
    rfl

/-- Whatever a file holds and whatever its events are handed to: the loops through sections and
subsections end, as every round of them fails or moves forward. What comes of the file is the same as
if its events were handed over afterwards. Where it ends, no more events were handed over than bytes
were taken, and these are bytes of the file. -/
theorem feed_paced (bytes : Bytes) (call : Event → EStateM Error σ Unit) :
    (∀ here : Scan × σ, Loops (fun scan => !scan.cursor.atEnd) (Script.oneSection.feed call) here
        ((Script.sectionsUpTo here.1.cursor.rest.length).feed call here)) ∧
      (∀ (entries : UInt8 → Nat → Scanner Unit) (each : ∀ kind stop, Script 0 (entries kind stop))
        (stop : Nat) (here : Scan × σ), Loops (fun scan => decide (scan.cursor.position < stop))
          ((Script.oneSubsection each stop).feed call) here
          ((Script.subsections each stop).feed call here)) ∧
      ∀ state : σ, ∃ last : Scan,
        Script.module.feed call ({ cursor := .ofBytes bytes }, state) =
            beside last ((Transcript.ofBytes bytes).forEach call state) ∧
          Fed call module { cursor := .ofBytes bytes } state
            (beside last ((Transcript.ofBytes bytes).forEach call state)) ∧
          last.events.size ≤ last.cursor.position ∧ last.cursor.position ≤ bytes.length := by
  refine ⟨loops_sections, fun entries each => loops_subsections each, fun state => ?_⟩
  obtain ⟨last, same⟩ := exists_beside_forEach bytes call state
  have within : Within { cursor := .ofBytes bytes } 0
      (lastState (Script.module.feed call ({ cursor := .ofBytes bytes }, state))).1 :=
    Script.module.within { cursor := .ofBytes bytes } state
  have fed : Fed call module { cursor := .ofBytes bytes } state _ :=
    Script.module.fed { cursor := .ofBytes bytes } state
  rw [same] at within fed
  rw [lastState_beside] at within
  refine ⟨last, same, fed, ?_, ((Cursor.in_ofBytes bytes).ahead within.ahead).1⟩
  have few : last.events.size + 0 ≤ 0 + last.cursor.position + 0 := within.few
  omega

/-- A section of functions that has one entry and promises as many as can be counted. -/
example : (Transcript.ofBytes [0, 0x61, 0x73, 0x6d, 1, 0, 0, 0, 3, 6, 0xff, 0xff, 0xff, 0xff, 0x0f,
    7]).events.length = 2 := by decide +kernel

end Scanner

end StaticLink
