import MessageFeed.Proofs.Signal.Drain
import Mathlib.Data.List.Induction

/-!
# How many waits are armed

Only failure-free runs are looked at here: the source neither fails nor fails to call its waits off.

Each armed wait, and each queued signal, is the present state of a chain: the wait ends with a
signal, and handling the signal arms the next wait as long as the hook is installed. Installing a
hook begins a chain. Cancelling it ends the chains whose wait is armed, but not those whose signal
is still queued, and a hook that is installed again before the queue is handled takes these up
beside its own. When the queue is then handled, at least two waits are armed
(`two_le_armed_of_doublesWaits`). That is the only way to more than one armed wait
(`neverDoubled_after`).
-/

set_option autoImplicit false

namespace MessageFeed.Signal

/-- Whether a step goes without a failure of the source. -/
def Step.isFailureFree : Step → Bool
  | cancel (some _) => false
  | fail _ => false
  | _ => true

/-- Whether a step asks for the hook to be cancelled. -/
def Step.isCancel : Step → Bool
  | cancel _ => true
  | _ => false

/-- The number of chains of a hook: its armed waits and its queued signals. -/
def Hook.chains (hook : Hook) : Nat :=
  hook.source.armed + hook.source.signals

/-- After some steps the hook stays installed since an installation that found a signal in the
queue. -/
def InstalledOverSignal (steps : List Step) : Prop :=
  ∃ before slot between, steps = before ++ .install (some slot) :: between ∧
    (Switchboard.fresh.after before).hook.installed = false ∧
    0 < (Switchboard.fresh.after before).hook.source.signals ∧
    ∀ s ∈ between, s.isCancel = false

/-- The queue is handled while the hook is installed over a signal. -/
def DoublesWaits (steps : List Step) : Prop :=
  ∃ before after, steps = before ++ .run :: after ∧ InstalledOverSignal before

namespace Source

/-- Completing waits with a signal queues one signal for each of them; completing them otherwise
queues none. -/
theorem signals_complete (source : Source) (completion : Completion) :
    (source.complete completion).signals =
      source.signals + if completion.isSignal then source.armed else 0 := by
  simp [signals, complete, List.countP_append, List.countP_replicate]

end Source

namespace Hook

variable {hook : Hook} {s : Step}

/-! ## One step -/

/-- A hook that has been cancelled is not installed and has no wait. -/
theorem react_cancel (h : hook.installed = false → hook.source.armed = 0) :
    (hook.react (.cancel none)).1.installed = false ∧
      (hook.react (.cancel none)).1.source.armed = 0 := by
  cases hinstalled : hook.installed with
  | false => simp [react, cancel, hinstalled, h hinstalled]
  | true => simp [react, cancel, hinstalled, complete, Source.complete]

/-- A step that does not cancel an installed hook keeps it installed and keeps its chains, and only
handling the queue arms waits. -/
theorem react_of_installed (hinstalled : hook.installed = true) (hfree : s.isFailureFree = true)
    (hcancel : s.isCancel = false) :
    (hook.react s).1.installed = true ∧ (hook.react s).1.chains = hook.chains ∧
      (s ≠ .run → (hook.react s).1.source.armed ≤ hook.source.armed) := by
  cases s with
  | install slot =>
    cases slot with
    | none => simp [react, install, hinstalled]
    | some slot => simp [react, install, hinstalled]
  | cancel failure => simp [Step.isCancel] at hcancel
  | deliver number =>
    have hsignals := hook.source.signals_complete (.signal number)
    simp only [Completion.isSignal, if_true] at hsignals
    simp only [react, complete, chains, hinstalled, hsignals]
    simp [Source.complete, Nat.add_comm]
  | fail reason => simp [Step.isFailureFree] at hfree
  | run => simp [react, drained, hinstalled, chains, Source.signals]
  | notify slot => simp [react, hinstalled]
  | poll slot => simp [react, hinstalled]

/-- A step leaves a hook that is not installed and has no wait armed as such a hook, unless it
installs it; that arms one wait and leaves the queue. -/
theorem react_of_not_installed (hinstalled : hook.installed = false)
    (harmed : hook.source.armed = 0) (hfree : s.isFailureFree = true) :
    ((hook.react s).1.installed = false ∧ (hook.react s).1.source.armed = 0) ∨
      ((∃ slot, s = .install (some slot)) ∧ (hook.react s).1.installed = true ∧
        (hook.react s).1.source.armed = 1 ∧
        (hook.react s).1.source.signals = hook.source.signals) := by
  cases s with
  | install slot =>
    cases slot with
    | none => simp [react, install, hinstalled, harmed]
    | some slot => simp [react, install, hinstalled, harmed, arm, Source.arm, Source.signals]
  | cancel failure => simp [react, cancel, hinstalled, harmed]
  | deliver number => simp [react, complete, Source.complete, hinstalled]
  | fail reason => simp [Step.isFailureFree] at hfree
  | run => simp [react, drained, hinstalled, harmed]
  | notify slot => simp [react, hinstalled, harmed]
  | poll slot => simp [react, hinstalled, harmed]

/-- A step other than handling the queue takes no completion out of it, and puts new ones behind. -/
theorem exists_ready_react (hook : Hook) (s : Step) (hrun : s ≠ .run) :
    ∃ now, (hook.react s).1.source.ready = hook.source.ready ++ now := by
  cases s with
  | install slot =>
    refine ⟨[], ?_⟩
    cases slot with
    | none => simp [react, install]
    | some slot =>
      cases hinstalled : hook.installed with
      | false => simp [react, install, hinstalled, arm, Source.arm]
      | true => simp [react, install, hinstalled]
  | cancel failure =>
    cases hinstalled : hook.installed with
    | false => exact ⟨[], by simp [react, cancel, hinstalled]⟩
    | true =>
      cases failure with
      | none => exact ⟨_, by simp only [react, cancel, hinstalled, if_true]; rfl⟩
      | some reason => exact ⟨[], by simp [react, cancel, hinstalled]⟩
  | deliver number => exact ⟨_, rfl⟩
  | fail reason => exact ⟨_, rfl⟩
  | run => exact absurd rfl hrun
  | notify slot => exact ⟨[], by simp [react]⟩
  | poll slot => exact ⟨[], by simp [react]⟩

end Hook

/-! ## Runs -/

section Runs

open Switchboard (fresh after_append after_cons after_nil hook_step events_step)

variable {steps : List Step} {s : Step}

/-- A hook that is installed over a signal is so after any more step that does not cancel it. -/
theorem InstalledOverSignal.snoc (h : InstalledOverSignal steps) (hcancel : s.isCancel = false) :
    InstalledOverSignal (steps ++ [s]) := by
  obtain ⟨before, slot, between, rfl, hinstalled, hsignals, hbetween⟩ := h
  refine ⟨before, slot, between ++ [s], by simp, hinstalled, hsignals, ?_⟩
  intro t ht
  rcases List.mem_append.mp ht with ht | ht
  · exact hbetween t ht
  · rw [List.mem_singleton.mp ht]
    exact hcancel

/-- What has doubled the waits has doubled them whatever comes next. -/
theorem DoublesWaits.append (h : DoublesWaits steps) (more : List Step) :
    DoublesWaits (steps ++ more) := by
  obtain ⟨before, after, rfl, hover⟩ := h
  exact ⟨before, after ++ more, by simp, hover⟩

/-- What holds of the hook after failure-free steps that never doubled the waits: at most one wait
is armed, none if the hook is not installed, and an installed hook has one chain, or is installed
over a signal, so that handling the queue would double the waits. -/
structure NeverDoubled (steps : List Step) (hook : Hook) : Prop where
  armed_of_not_installed : hook.installed = false → hook.source.armed = 0
  armed_le_one : hook.source.armed ≤ 1
  chains_of_installed : hook.installed = true → hook.chains = 1 ∨ InstalledOverSignal steps

/-- A step without a failure keeps the waits single, unless it doubles them. -/
theorem NeverDoubled.snoc (h : NeverDoubled steps (fresh.after steps).hook)
    (hfree : s.isFailureFree = true) (hdouble : ¬ DoublesWaits (steps ++ [s])) :
    NeverDoubled (steps ++ [s]) (fresh.after (steps ++ [s])).hook := by
  rw [after_append, after_cons, after_nil, hook_step]
  cases hinstalled : (fresh.after steps).hook.installed with
  | false =>
    -- Only an installation begins a chain here, and it may find another one in the queue.
    rcases Hook.react_of_not_installed hinstalled (h.armed_of_not_installed hinstalled) hfree with
      ⟨hstill, harmed⟩ | ⟨⟨slot, rfl⟩, hnow, harmed, hsignals⟩
    · exact ⟨fun _ => harmed, by omega, fun hi => by simp [hstill] at hi⟩
    · refine ⟨fun hi => by simp [hnow] at hi, by omega, fun _ => ?_⟩
      by_cases hnone : (fresh.after steps).hook.source.signals = 0
      · left
        rw [Hook.chains, harmed, hsignals, hnone]
      · exact .inr ⟨steps, slot, [], rfl, hinstalled, by omega, by simp⟩
  | true =>
    cases hcancel : s.isCancel with
    | true =>
      obtain ⟨failure, rfl⟩ : ∃ failure, s = .cancel failure := by
        cases s <;> simp_all [Step.isCancel]
      cases failure with
      | some reason => simp [Step.isFailureFree] at hfree
      | none =>
        obtain ⟨hoff, harmed⟩ := Hook.react_cancel h.armed_of_not_installed
        exact ⟨fun _ => harmed, by omega, fun hi => by simp [hoff] at hi⟩
    | false =>
      obtain ⟨hon, hchains, hless⟩ := Hook.react_of_installed hinstalled hfree hcancel
      refine ⟨fun hi => by simp [hon] at hi, ?_, fun _ => ?_⟩
      · by_cases hrun : s = .run
        · -- Handling the queue turns every chain into an armed wait, so there must be one only.
          subst hrun
          rcases h.chains_of_installed hinstalled with hone | hover
          · have hle : ((fresh.after steps).hook.react .run).1.source.armed ≤
                ((fresh.after steps).hook.react .run).1.chains := Nat.le_add_right _ _
            omega
          · exact absurd ⟨steps, [], rfl, hover⟩ hdouble
        · exact Nat.le_trans (hless hrun) h.armed_le_one
      · rcases h.chains_of_installed hinstalled with hone | hover
        · exact .inl (hchains.trans hone)
        · exact .inr (hover.snoc hcancel)

/-- Without failures the waits are single as long as nothing has doubled them. -/
theorem neverDoubled_after (hfree : ∀ s ∈ steps, s.isFailureFree = true)
    (hdouble : ¬ DoublesWaits steps) : NeverDoubled steps (fresh.after steps).hook := by
  induction steps using List.reverseRecOn with
  | nil => exact ⟨fun _ => rfl, Nat.zero_le 1, fun hi => by simp [fresh, Hook.fresh] at hi⟩
  | append_singleton steps s ih =>
    have hbefore : NeverDoubled steps (fresh.after steps).hook :=
      ih (fun t ht => hfree t (List.mem_append_left _ ht)) fun h => hdouble (h.append [s])
    exact hbefore.snoc (hfree s (by simp)) hdouble

/-- A hook installed over a signal has at least two chains as long as it is not cancelled. -/
theorem two_le_chains_of_installedOverSignal (hfree : ∀ s ∈ steps, s.isFailureFree = true)
    (h : InstalledOverSignal steps) :
    (fresh.after steps).hook.installed = true ∧ 2 ≤ (fresh.after steps).hook.chains := by
  obtain ⟨before, slot, between, rfl, hinstalled, hsignals, hbetween⟩ := h
  -- The installation makes a second chain; no step after it ends one, as none of them cancels.
  induction between using List.reverseRecOn with
  | nil =>
    rw [after_append, after_cons, after_nil, hook_step]
    simp only [Hook.react, Hook.install, hinstalled, Hook.arm, Hook.chains, Source.arm,
      Source.signals] at hsignals ⊢
    simp only [Bool.false_eq_true, if_false, true_and]
    omega
  | append_singleton between s ih =>
    have hmore : before ++ .install (some slot) :: (between ++ [s]) =
        (before ++ .install (some slot) :: between) ++ [s] := by simp
    rw [hmore] at hfree ⊢
    obtain ⟨hon, hchains⟩ := ih (fun t ht => hfree t (List.mem_append_left _ ht))
      fun t ht => hbetween t (List.mem_append_left _ ht)
    have hstep := Hook.react_of_installed hon (hfree s (by simp)) (hbetween s (by simp))
    rw [after_append, after_cons, after_nil, hook_step]
    exact ⟨hstep.1, by omega⟩

/-- Handling the queue of a hook installed over a signal arms at least two waits. -/
theorem two_le_armed_of_doublesWaits (hfree : ∀ s ∈ steps, s.isFailureFree = true)
    (h : DoublesWaits steps) : ∃ k, 2 ≤ (fresh.after (steps.take k)).hook.source.armed := by
  obtain ⟨before, after, rfl, hover⟩ := h
  obtain ⟨hon, hchains⟩ := two_le_chains_of_installedOverSignal
    (fun t ht => hfree t (List.mem_append_left _ ht)) hover
  refine ⟨before.length + 1, ?_⟩
  have htake : (before ++ .run :: after).take (before.length + 1) = before ++ [.run] := by
    simp [List.take_append, List.take_of_length_le]
  rw [htake, after_append, after_cons, after_nil, hook_step]
  simpa [Hook.react, Hook.drained, hon, Hook.chains] using hchains

/-! ## One delivery -/

/-- Until the queue is handled, completions only join it, behind those that are in it. -/
theorem exists_ready_after (switchboard : Switchboard) (steps : List Step) (hrun : .run ∉ steps) :
    ∃ later, (switchboard.after steps).hook.source.ready =
      switchboard.hook.source.ready ++ later := by
  induction steps generalizing switchboard with
  | nil => exact ⟨[], by simp⟩
  | cons s steps ih =>
    obtain ⟨hs, hsteps⟩ := not_or.mp (mt List.mem_cons.mpr hrun)
    obtain ⟨later, hlater⟩ := ih (switchboard.step s).1 hsteps
    obtain ⟨now, hnow⟩ := switchboard.hook.exists_ready_react s (Ne.symm hs)
    refine ⟨now ++ later, ?_⟩
    rw [after_cons, hlater, hook_step, hnow, List.append_assoc]

/-- A signal that comes is queued once for each armed wait, behind what is there. -/
theorem ready_after_deliver (steps : List Step) (number : Int) :
    (fresh.after (steps ++ [.deliver number])).hook.source.ready =
      (fresh.after steps).hook.source.ready ++
        List.replicate (fresh.after steps).hook.source.armed (.signal number) := by
  rw [after_append, after_cons, after_nil, hook_step]
  rfl

/-- **At most one wait is armed, unless the waits are doubled.** In a failure-free run of any length
this is exact: more than one wait is armed at some time if and only if the queue is handled while
the hook is installed over a signal. A delivery completes the waits that are armed, at most one if
the waits were not doubled before. When the queue is handled next, what the hook does is what it
does for each completion in turn, so a delivery comes to one report and one notice for each wait
that it completed. -/
theorem armed_le_one_iff_not_doublesWaits (steps : List Step)
    (hfree : ∀ s ∈ steps, s.isFailureFree = true) :
    ((∀ k, (fresh.after (steps.take k)).hook.source.armed ≤ 1) ↔ ¬ DoublesWaits steps) ∧
    ∀ before number between after,
      steps = before ++ .deliver number :: between ++ .run :: after → .run ∉ between →
      ∃ earlier mine later,
        (fresh.after before).hook.source.ready = earlier ∧
        (fresh.after (before ++ [.deliver number])).hook.source.ready = earlier ++ mine ∧
        mine = List.replicate (fresh.after before).hook.source.armed (.signal number) ∧
        (¬ DoublesWaits before → mine.length ≤ 1) ∧
        (fresh.after (before ++ .deliver number :: between)).hook.source.ready =
          earlier ++ mine ++ later ∧
        ((fresh.after (before ++ .deliver number :: between)).step .run).2.events =
          (earlier ++ mine ++ later).flatMap (Completion.events
            (fresh.after (before ++ .deliver number :: between)).hook.target) := by
  constructor
  · constructor
    · intro hone hdouble
      obtain ⟨k, hk⟩ := two_le_armed_of_doublesWaits hfree hdouble
      have := hone k
      omega
    · intro hdouble k
      have hprefix : ¬ DoublesWaits (steps.take k) := by
        intro h
        apply hdouble
        rw [← List.take_append_drop k steps]
        exact h.append (steps.drop k)
      have htake : ∀ s ∈ steps.take k, s.isFailureFree = true :=
        fun s hs => hfree s (List.mem_of_mem_take hs)
      exact (neverDoubled_after htake hprefix).armed_le_one
  · rintro before number between after rfl hrun
    have hmine := ready_after_deliver before number
    obtain ⟨later, hlater⟩ :=
      exists_ready_after (fresh.after (before ++ [.deliver number])) between hrun
    have hsteps : before ++ .deliver number :: between =
        (before ++ [.deliver number]) ++ between := by simp
    have hready := hlater
    rw [hmine, ← after_append, ← hsteps] at hready
    refine ⟨_, _, later, rfl, hmine, rfl, ?_, hready, ?_⟩
    · intro hdouble
      rw [List.length_replicate]
      exact (neverDoubled_after (fun s hs => hfree s (by simp [hs])) hdouble).armed_le_one
    · rw [events_step, ← hready]
      rfl

/-- A hook that is cancelled between a signal and its handling, and installed for another slot after
that: the signal is reported once. -/
theorem armed_le_one_of_handled_before_install :
    (∀ s ∈ [.install (some 0), .deliver 15, .cancel none, .run, .install (some 1)],
        Step.isFailureFree s = true) ∧
      .run ∉ [Step.cancel none] ∧
      ∃ earlier mine later,
        (fresh.after [.install (some 0)]).hook.source.ready = earlier ∧
        (fresh.after [.install (some 0), .deliver 15]).hook.source.ready = earlier ++ mine ∧
        mine = List.replicate (fresh.after [.install (some 0)]).hook.source.armed (.signal 15) ∧
        (¬ DoublesWaits [.install (some 0)] → mine.length ≤ 1) ∧
        (fresh.after [.install (some 0), .deliver 15, .cancel none]).hook.source.ready =
          earlier ++ mine ++ later ∧
        ((fresh.after [.install (some 0), .deliver 15, .cancel none]).step .run).2.events =
          (earlier ++ mine ++ later).flatMap (Completion.events
            (fresh.after [.install (some 0), .deliver 15, .cancel none]).hook.target) :=
  ⟨by decide, by decide,
    (armed_le_one_iff_not_doublesWaits
      [.install (some 0), .deliver 15, .cancel none, .run, .install (some 1)] (by decide)).2
      [.install (some 0)] 15 [.cancel none] [.install (some 1)] rfl (by decide)⟩

/-- A hook that is cancelled and installed again while a signal is queued has two waits armed once
the queue is handled, and then reports the next signal twice and gives two notices of it. -/
theorem armed_eq_two_of_installed_over_signal :
    (∀ s ∈ [.install (some 0), .deliver 15, .cancel none, .install (some 0), .run],
        Step.isFailureFree s = true) ∧
      (fresh.after [.install (some 0), .deliver 15, .cancel none, .install (some 0),
        .run]).hook.source.armed = 2 ∧
      ((fresh.after [.install (some 0), .deliver 15, .cancel none, .install (some 0), .run,
        .deliver 15]).step .run).2.events =
          (Completion.signal 15).events (some 0) ++ (Completion.signal 15).events (some 0) := by
  refine ⟨by decide, ?_, ?_⟩
  · rw [Switchboard.hook_after]
    decide
  · rw [events_step, Switchboard.hook_after]
    decide

end Runs

end MessageFeed.Signal
