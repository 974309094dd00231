import MessageFeed.Proofs.Signal.Course

/-!
# A hook that is used sequentially

A hook always presents the mode that the two-state machine is in (`mode_after`), but what it does
can differ: an installation over a queued signal doubles its waits and moves the notice. If the
source does not fail and every installation finds the queue handled, neither can happen. Then an
installed hook has exactly one chain (`sequenced_after`), each signal that comes is reported once,
at the slot that was installed when it came (`events_of_delivery`), and what the hook has done, with
what it still owes for its queue, is what the machine shows (`events_append_owed`).
-/

set_option autoImplicit false

namespace MessageFeed.Signal

open Switchboard (fresh)

/-- Every installation that is accepted finds the queue handled. -/
def Sequential (steps : List Step) : Prop :=
  fresh.Throughout (fun switchboard s =>
    switchboard.hook.installedBy s ≠ none → switchboard.hook.source.ready = []) steps

/-- Every signal comes while a wait is armed. -/
def SignalsAwaited (steps : List Step) : Prop :=
  fresh.Throughout (fun switchboard s =>
    ∀ number, s = .deliver number → 0 < switchboard.hook.source.armed) steps

/-- The last installation that was accepted is for this slot, and the hook has not been cancelled
since. -/
def LastInstalledFor (slot : Slot) (steps : List Step) : Prop :=
  Switchboard.Since (fun switchboard s => switchboard.hook.installedBy s = some slot)
    (fun switchboard s => switchboard.hook.installedBy s = none ∧ s.isCancel = false) steps

/-- No failure of the source is queued. -/
def Hook.Unfailed (hook : Hook) : Prop :=
  ∀ reason, .failed reason ∉ hook.source.ready

/-- What holds of a hook that is used sequentially: it has one chain as long as it is installed, and
after that no wait, but perhaps a signal in the queue. -/
structure Hook.Sequenced (hook : Hook) : Prop where
  chains_of_installed : hook.installed = true → hook.chains = 1
  armed_of_not_installed : hook.installed = false → hook.source.armed = 0
  chains_le_one : hook.chains ≤ 1

namespace Mode

/-- The last step is one of the mode that those before it left. -/
theorem after_snoc (mode : Mode) (steps : List Step) (s : Step) :
    mode.after (steps ++ [s]) = ((mode.after steps).step s).1 := by
  simp [after, List.foldl_append]

/-- What is seen in some steps, and then in the last one. -/
theorem events_snoc (mode : Mode) (steps : List Step) (s : Step) :
    mode.events (steps ++ [s]) = mode.events steps ++ ((mode.after steps).step s).2 := by
  induction steps generalizing mode with
  | nil => simp [events, after]
  | cons t steps ih =>
    simp only [List.cons_append, events, ih, List.append_assoc]
    rfl

end Mode

namespace Hook

variable {hook : Hook} {s : Step}

/-! ## One step -/

/-- What a hook ignores, its mode ignores too. -/
theorem step_mode_of_ignores (hplaced : hook.installed = true → ∃ slot, hook.mode = .active slot)
    (h : hook.ignores s = true) : hook.mode.step s = (hook.mode, []) := by
  cases hinstalled : hook.installed with
  | false =>
    rw [mode_of_not_installed hinstalled]
    cases s with
    | install request =>
      cases request with
      | none => rfl
      | some slot => simp [ignores, hinstalled] at h
    | _ => rfl
  | true =>
    obtain ⟨slot, hmode⟩ := hplaced hinstalled
    rw [hmode]
    cases s with
    | cancel failure => simp [ignores, hinstalled] at h
    | deliver number => cases h
    | _ => rfl

/-- A hook presents the mode after a step that the machine comes to. -/
theorem mode_react (hplaced : hook.installed = true → ∃ slot, hook.mode = .active slot) :
    (hook.react s).1.mode = (hook.mode.step s).1 := by
  have h := hook.reaction s
  generalize hook.react s = r at h
  cases h with
  | ignored _ h => rw [step_mode_of_ignores hplaced h]
  | installed slot h =>
    rw [mode_of_not_installed h]
    rfl
  | cancelled h =>
    obtain ⟨slot, hmode⟩ := hplaced h
    rw [hmode]
    rfl
  | leftArmed reason h =>
    obtain ⟨slot, hmode⟩ := hplaced h
    rw [hmode]
    rfl
  | delivered number =>
    have hkept : (hook.complete (.signal number)).mode = hook.mode := rfl
    rw [hkept]
    cases hook.mode <;> rfl
  | failed reason =>
    have hkept : (hook.complete (.failed reason)).mode = hook.mode := rfl
    rw [hkept]
    cases hook.mode <;> rfl
  | handled =>
    have hkept : hook.drained.1.mode = hook.mode := rfl
    rw [hkept]
    cases hook.mode <;> rfl

/-- A hook is active for a slot if it was just installed for it, or was and has not been installed
or cancelled. -/
theorem mode_react_eq_active_iff (slot : Slot) :
    (hook.react s).1.mode = .active slot ↔
      hook.installedBy s = some slot ∨
        hook.mode = .active slot ∧ hook.installedBy s = none ∧ s.isCancel = false := by
  rw [mode_eq_active_iff, mode_eq_active_iff, installed_react, target_react]
  cases hby : hook.installedBy s with
  | none =>
    cases s.isCancel <;> simp
  | some other =>
    obtain ⟨rfl, -⟩ := (hook.installedBy_eq_some_iff s other).mp hby
    simp [Step.isCancel]

/-- A step without a failure queues no failure. -/
theorem Unfailed.react (h : hook.Unfailed) (hfree : s.isFailureFree = true) :
    (hook.react s).1.Unfailed := by
  intro reason
  have hmem := h reason
  have hreaction := hook.reaction s
  generalize hook.react s = r at hreaction
  cases hreaction with
  | ignored _ _ => exact hmem
  | installed slot _ => exact hmem
  | cancelled _ => simp [complete, Source.complete, hmem]
  | leftArmed reason _ => exact hmem
  | delivered number => simp [complete, Source.complete, hmem]
  | failed reason => simp [Step.isFailureFree] at hfree
  | handled => exact List.not_mem_nil

/-- A step without a failure keeps a hook sequenced, if an installation finds the queue handled. -/
theorem Sequenced.react (h : hook.Sequenced) (hfree : s.isFailureFree = true)
    (hfound : hook.installedBy s ≠ none → hook.source.ready = []) :
    (hook.react s).1.Sequenced := by
  have hreaction := hook.reaction s
  generalize hook.react s = r at hreaction
  cases hreaction with
  | ignored _ _ => exact h
  | installed slot hoff =>
    -- There is no wait, and the queue is empty, so the new wait is the only chain.
    have hready : hook.source.ready = [] := hfound (by simp [installedBy, hoff])
    have hone : ({ hook with installed := true, target := some slot }.arm).chains = 1 := by
      simp [arm, Source.arm, chains, Source.signals, hready, h.armed_of_not_installed hoff]
    exact ⟨fun _ => hone, fun hi => absurd hi.symm Bool.false_ne_true, Nat.le_of_eq hone⟩
  | cancelled hon =>
    have hless : ({ hook with installed := false }.complete .aborted).chains ≤ hook.chains :=
      chains_complete_le { hook with installed := false } .aborted
    exact ⟨fun hi => absurd hi Bool.false_ne_true, fun _ => rfl,
      Nat.le_trans hless h.chains_le_one⟩
  | leftArmed reason _ => simp [Step.isFailureFree] at hfree
  | delivered number =>
    have hsame := chains_complete_signal hook number
    exact ⟨fun hi => hsame.trans (h.chains_of_installed hi), fun _ => rfl,
      Nat.le_trans (Nat.le_of_eq hsame) h.chains_le_one⟩
  | failed reason => simp [Step.isFailureFree] at hfree
  | handled =>
    have hchains := chains_drained hook
    have hless := h.chains_le_one
    refine ⟨fun hi => ?_, fun hi => ?_, ?_⟩
    · have hinstalled : hook.installed = true := hi
      rw [hchains, hinstalled]
      exact h.chains_of_installed hinstalled
    · have hinstalled : hook.installed = false := hi
      simpa [drained, hinstalled] using h.armed_of_not_installed hinstalled
    · rw [chains] at hless
      rw [hchains]
      split <;> omega

/-! ## What a hook owes -/

/-- With neither a signal nor a failure in the queue, a hook owes nothing. -/
theorem owed_of_signals_eq_zero (hfailed : hook.Unfailed) (hsignals : hook.source.signals = 0) :
    hook.owed = [] := by
  rw [owed, List.flatMap_eq_nil_iff]
  intro completion hmem
  rw [Source.signals, List.countP_eq_zero] at hsignals
  cases completion with
  | signal number => exact absurd rfl (hsignals _ hmem)
  | aborted => rfl
  | failed reason => exact absurd hmem (hfailed reason)

/-- Calling waits off adds nothing to what is owed. -/
theorem owed_complete_aborted : (hook.complete .aborted).owed = hook.owed := by
  have hnothing : (List.replicate hook.source.armed Completion.aborted).flatMap
      (Completion.events hook.target) = [] := by
    rw [List.flatMap_eq_nil_iff]
    intro completion hmem
    rw [List.eq_of_mem_replicate hmem]
    rfl
  rw [owed, owed, complete, Source.complete, List.flatMap_append, hnothing, List.append_nil]

/-- A delivery to one wait adds one report. -/
theorem owed_complete_signal {slot : Slot} (number : Int) (harmed : hook.source.armed = 1)
    (htarget : hook.target = some slot) :
    (hook.complete (.signal number)).owed = hook.owed ++ report number slot := by
  rw [owed, owed, complete, Source.complete, List.flatMap_append, harmed, htarget]
  rfl

/-- As long as no wait is armed, only an installation and the handling of the queue change the
source. -/
theorem source_react_of_armed_eq_zero (harmed : hook.source.armed = 0)
    (hby : hook.installedBy s = none) (hrun : s ≠ .run) :
    (hook.react s).1.source = hook.source := by
  have hcomplete : ∀ completion, hook.source.complete completion = hook.source := by
    intro completion
    rw [Source.complete, harmed, List.replicate_zero, List.append_nil, ← harmed]
  have h := hook.reaction s
  generalize hook.react s = r at h
  cases h with
  | ignored _ _ => rfl
  | installed slot h => simp [installedBy, h] at hby
  | cancelled _ => exact hcomplete _
  | leftArmed _ _ => rfl
  | delivered _ => exact hcomplete _
  | failed _ => exact hcomplete _
  | handled => exact absurd rfl hrun

/-- What a hook does in a step and owes after it is what it owed before and what its mode shows. -/
theorem events_append_owed_react (h : hook.Sequenced)
    (hplaced : hook.installed = true → ∃ slot, hook.mode = .active slot)
    (hfree : s.isFailureFree = true)
    (hfound : hook.installedBy s ≠ none → hook.source.ready = [])
    (hawaited : ∀ number, s = .deliver number → 0 < hook.source.armed) :
    (hook.react s).2 ++ (hook.react s).1.owed = hook.owed ++ (hook.mode.step s).2 := by
  have hreaction := hook.reaction s
  generalize hook.react s = r at hreaction
  cases hreaction with
  | ignored _ h => rw [step_mode_of_ignores hplaced h, List.nil_append, List.append_nil]
  | installed slot hoff =>
    -- The queue is empty, so the new slot is no one's but that of signals still to come.
    have hready : hook.source.ready = [] := hfound (by simp [installedBy, hoff])
    rw [mode_of_not_installed hoff]
    simp [owed, arm, Source.arm, hready, Mode.step]
  | cancelled hon =>
    obtain ⟨slot, hmode⟩ := hplaced hon
    rw [hmode, List.nil_append, owed_complete_aborted]
    exact (List.append_nil _).symm
  | leftArmed reason hon => simp [Step.isFailureFree] at hfree
  | delivered number =>
    have hpos := hawaited number rfl
    have hinstalled : hook.installed = true := by
      by_contra hoff
      have hnone := h.armed_of_not_installed (by simpa using hoff)
      omega
    have hone := h.chains_of_installed hinstalled
    have harmed : hook.source.armed = 1 := by
      unfold chains at hone
      omega
    obtain ⟨slot, hmode⟩ := hplaced hinstalled
    rw [List.nil_append, hmode,
      owed_complete_signal number harmed ((mode_eq_active_iff _ _).mp hmode).2]
    rfl
  | failed reason => simp [Step.isFailureFree] at hfree
  | handled =>
    have hevents : hook.drained.2 = hook.owed := rfl
    have hnothing : hook.drained.1.owed = [] := rfl
    rw [hevents, hnothing]
    cases hook.mode <;> rfl

/-- A hook that is not installed and has no signal queued does nothing until it is installed. -/
theorem events_react_eq_nil (hinstalled : hook.installed = false)
    (hsignals : hook.source.signals = 0) (hfailed : hook.Unfailed)
    (hby : hook.installedBy s = none) : (hook.react s).2 = [] := by
  have h := hook.reaction s
  generalize hook.react s = r at h
  cases h with
  | installed slot h => simp [installedBy, h] at hby
  | leftArmed reason h => simp [hinstalled] at h
  | handled => exact owed_of_signals_eq_zero hfailed hsignals
  | _ => rfl

end Hook

/-! ## Runs -/

section Runs

open Switchboard (after_append hook_after_snoc hook_step events_step events_append throughout_append
  throughout_snoc since_snoc not_since_nil installs_append exists_mode_of_installed)

variable {steps : List Step}

/-- The first steps of a sequential use are one. -/
theorem Sequential.of_append {more : List Step} (h : Sequential (steps ++ more)) :
    Sequential steps :=
  ((throughout_append _ _ _).mp h).1

/-- The first steps of a failure-free use are failure-free. -/
theorem isFailureFree_of_append {more : List Step}
    (hfree : ∀ s ∈ steps ++ more, s.isFailureFree = true) :
    ∀ s ∈ steps, s.isFailureFree = true :=
  fun s hs => hfree s (List.mem_append_left _ hs)

/-- The mode that a hook presents is the one the machine is in, in every run. -/
theorem mode_after (steps : List Step) : (fresh.after steps).hook.mode = Mode.idle.after steps := by
  induction steps using List.reverseRecOn with
  | nil => rfl
  | append_singleton steps s ih =>
    rw [hook_after_snoc, Hook.mode_react (exists_mode_of_installed steps), ih, Mode.after_snoc]

/-- A hook is active for the slot of its last installation, unless it was cancelled since. -/
theorem mode_eq_active_iff_lastInstalledFor (steps : List Step) (slot : Slot) :
    (fresh.after steps).hook.mode = .active slot ↔ LastInstalledFor slot steps := by
  induction steps using List.reverseRecOn with
  | nil =>
    refine iff_of_false ?_ not_since_nil
    intro h
    cases h
  | append_singleton steps s ih =>
    unfold LastInstalledFor at ih ⊢
    rw [hook_after_snoc, since_snoc, Hook.mode_react_eq_active_iff, ih]

/-- Without failures of the source none is queued. -/
theorem unfailed_after (hfree : ∀ s ∈ steps, s.isFailureFree = true) :
    (fresh.after steps).hook.Unfailed := by
  induction steps using List.reverseRecOn with
  | nil => exact fun reason => List.not_mem_nil
  | append_singleton steps s ih =>
    rw [hook_after_snoc]
    exact (ih (isFailureFree_of_append hfree)).react (hfree s (by simp))

/-- A hook that is used sequentially and without failures is sequenced. -/
theorem sequenced_after (hfree : ∀ s ∈ steps, s.isFailureFree = true)
    (hseq : Sequential steps) : (fresh.after steps).hook.Sequenced := by
  induction steps using List.reverseRecOn with
  | nil => exact ⟨fun hi => absurd hi Bool.false_ne_true, fun _ => rfl, Nat.zero_le 1⟩
  | append_singleton steps s ih =>
    rw [hook_after_snoc]
    exact (ih (isFailureFree_of_append hfree) hseq.of_append).react (hfree s (by simp))
      ((throughout_snoc _ _ _).mp hseq).2

/-- **Refinement.** What the hook did, and what it still owes for its queue, is what the machine
shows. -/
theorem events_append_owed (hfree : ∀ s ∈ steps, s.isFailureFree = true)
    (hseq : Sequential steps) (hawaited : SignalsAwaited steps) :
    fresh.events steps ++ (fresh.after steps).hook.owed = Mode.idle.events steps := by
  induction steps using List.reverseRecOn with
  | nil => rfl
  | append_singleton steps s ih =>
    have hfree' := isFailureFree_of_append hfree
    obtain ⟨hawaited', hlast⟩ := (throughout_snoc _ _ _).mp hawaited
    have hstep := Hook.events_append_owed_react (sequenced_after hfree' hseq.of_append)
      (exists_mode_of_installed steps) (hfree s (by simp)) ((throughout_snoc _ _ _).mp hseq).2 hlast
    have hevents : (fresh.after steps).events [s] = ((fresh.after steps).hook.react s).2 := by
      rw [← events_step]
      exact List.append_nil _
    calc fresh.events (steps ++ [s]) ++ (fresh.after (steps ++ [s])).hook.owed
        = fresh.events steps ++ (((fresh.after steps).hook.react s).2 ++
            ((fresh.after steps).hook.react s).1.owed) := by
          rw [events_append, hevents, hook_after_snoc, List.append_assoc]
      _ = (fresh.events steps ++ (fresh.after steps).hook.owed) ++
            ((fresh.after steps).hook.mode.step s).2 := by
          rw [hstep, List.append_assoc]
      _ = Mode.idle.events (steps ++ [s]) := by
          rw [ih hfree' hseq.of_append hawaited', mode_after, Mode.events_snoc]

/-- What is owed after a delivery stays owed until the queue is handled. -/
theorem owed_after_deliver {before between : List Step} {number : Int} {slot : Slot}
    (hfree : ∀ s ∈ before ++ .deliver number :: between, s.isFailureFree = true)
    (hseq : Sequential (before ++ .deliver number :: between)) (hrun : .run ∉ between)
    (harmed : 0 < (fresh.after before).hook.source.armed)
    (hmode : (fresh.after before).hook.mode = .active slot) :
    (fresh.after (before ++ .deliver number :: between)).hook.owed = report number slot ∧
      (fresh.after (before ++ .deliver number :: between)).hook.source.armed = 0 ∧
      (fresh.after (before ++ .deliver number :: between)).hook.source.ready ≠ [] := by
  induction between using List.reverseRecOn with
  | nil =>
    have hbefore := sequenced_after (isFailureFree_of_append hfree) hseq.of_append
    have hinstalled := ((Hook.mode_eq_active_iff _ _).mp hmode).1
    have hone := hbefore.chains_of_installed hinstalled
    unfold Hook.chains at hone
    have hnone : (fresh.after before).hook.source.signals = 0 := by omega
    have hwait : (fresh.after before).hook.source.armed = 1 := by omega
    have hunfailed := unfailed_after (isFailureFree_of_append hfree)
    have hpaid := Hook.owed_of_signals_eq_zero hunfailed hnone
    have htarget := ((Hook.mode_eq_active_iff _ _).mp hmode).2
    rw [hook_after_snoc]
    refine ⟨?_, rfl, ?_⟩
    · rw [Hook.react, Hook.owed_complete_signal number hwait htarget, hpaid, List.nil_append]
    · simp [Hook.react, Hook.complete, Source.complete, hwait]
  | append_singleton between s ih =>
    have hsplit : before ++ .deliver number :: (between ++ [s]) =
        (before ++ .deliver number :: between) ++ [s] := by simp
    rw [hsplit] at hfree hseq ⊢
    obtain ⟨howed, hwait, hready⟩ := ih (isFailureFree_of_append hfree) hseq.of_append
      fun h => hrun (List.mem_append_left _ h)
    -- The queue is not empty, so no installation is accepted.
    have hby : (fresh.after (before ++ .deliver number :: between)).hook.installedBy s = none := by
      by_contra hby
      exact hready (((throughout_snoc _ _ _).mp hseq).2 hby)
    have hs : s ≠ .run := by
      rintro rfl
      exact hrun (by simp)
    have hsource := Hook.source_react_of_armed_eq_zero hwait hby hs
    rw [hook_after_snoc, Hook.owed, hsource, Hook.target_react, hby, Option.none_or]
    exact ⟨howed, hwait, hready⟩

/-- **One delivery.** It is made while the hook is active for some slot, and when the queue is
handled next, it is reported once, with one notice at that slot, and nothing else is. -/
theorem events_of_delivery {before between : List Step} {number : Int}
    (hfree : ∀ s ∈ before ++ .deliver number :: between, s.isFailureFree = true)
    (hseq : Sequential (before ++ .deliver number :: between)) (hrun : .run ∉ between)
    (harmed : 0 < (fresh.after before).hook.source.armed) :
    ∃ slot, (fresh.after before).hook.mode = .active slot ∧
      ((fresh.after (before ++ .deliver number :: between)).step .run).2.events =
        report number slot := by
  have hinstalled : (fresh.after before).hook.installed = true := by
    by_contra hoff
    have hnone := (sequenced_after (isFailureFree_of_append hfree)
      hseq.of_append).armed_of_not_installed (by simpa using hoff)
    omega
  obtain ⟨slot, hmode⟩ := exists_mode_of_installed before hinstalled
  refine ⟨slot, hmode, ?_⟩
  rw [Switchboard.events_step_run]
  exact (owed_after_deliver hfree hseq hrun harmed hmode).1

/-- As long as no installation is accepted, a cancelled hook has no wait armed, and once its queue
is handled, no signal queued. -/
theorem settled_after {switchboard : Switchboard} (hfree : ∀ s ∈ steps, s.isFailureFree = true)
    (hinstalled : switchboard.hook.installed = false) (harmed : switchboard.hook.source.armed = 0)
    (hby : switchboard.installs steps = []) :
    (switchboard.after steps).hook.installed = false ∧
      (switchboard.after steps).hook.source.armed = 0 ∧
      (.run ∈ steps → (switchboard.after steps).hook.source.signals = 0) := by
  induction steps using List.reverseRecOn with
  | nil => exact ⟨hinstalled, harmed, fun h => absurd h List.not_mem_nil⟩
  | append_singleton steps s ih =>
    rw [installs_append, List.append_eq_nil_iff] at hby
    have hnone : (switchboard.after steps).hook.installedBy s = none := by
      simpa [Switchboard.installs] using hby.2
    obtain ⟨hoff, hwait, hsignals⟩ := ih (isFailureFree_of_append hfree) hby.1
    have hless := Hook.chains_react_le hnone
    rw [hook_after_snoc]
    rcases Hook.react_of_not_installed hoff hwait (hfree s (by simp)) with
      ⟨hoff', hwait'⟩ | ⟨⟨slot, rfl⟩, -⟩
    · refine ⟨hoff', hwait', fun hrun => ?_⟩
      rcases List.mem_append.mp hrun with hrun | hrun
      · -- No step but an installation adds a chain.
        unfold Hook.chains at hless
        have := hsignals hrun
        omega
      · rw [← List.mem_singleton.mp hrun]
        rfl
    · simp [Hook.installedBy, hoff] at hnone

/-- **Silence.** After a cancellation and the next handling of the queue the hook does nothing,
until an installation is accepted. -/
theorem events_after_cancel {before between after : List Step} {s : Step}
    (hfree : ∀ t ∈ before ++ .cancel none :: (between ++ .run :: after), t.isFailureFree = true)
    (hseq : Sequential before)
    (hby : (fresh.after (before ++ [.cancel none])).installs
      (between ++ .run :: after ++ [s]) = []) :
    ((fresh.after (before ++ .cancel none :: (between ++ .run :: after))).step s).2.events =
      [] := by
  have hsplit : before ++ .cancel none :: (between ++ .run :: after) =
      (before ++ [.cancel none]) ++ (between ++ .run :: after) := by simp
  have hunfailed := unfailed_after hfree
  rw [hsplit] at hfree hunfailed ⊢
  rw [installs_append, List.append_eq_nil_iff] at hby
  have hcancelled : (fresh.after (before ++ [.cancel none])).hook.installed = false ∧
      (fresh.after (before ++ [.cancel none])).hook.source.armed = 0 := by
    rw [hook_after_snoc]
    exact Hook.react_cancel (sequenced_after
      (isFailureFree_of_append (isFailureFree_of_append hfree)) hseq).armed_of_not_installed
  obtain ⟨hoff, -, hsignals⟩ := settled_after
    (fun t ht => hfree t (List.mem_append_right _ ht)) hcancelled.1 hcancelled.2 hby.1
  have hnone : ((fresh.after (before ++ [.cancel none])).after
      (between ++ .run :: after)).hook.installedBy s = none := by
    simpa [Switchboard.installs] using hby.2
  rw [events_step, after_append]
  rw [after_append] at hunfailed
  exact Hook.events_react_eq_nil hoff (hsignals (by simp)) hunfailed hnone

/-- **Used sequentially, a hook is a machine with two states.** In a run of any length without a
failure of the source, in which every accepted installation finds the queue handled:

- the hook has one chain if it is installed, otherwise no wait and at most a signal in the queue;
- it presents the mode of the machine, which is active for a slot exactly if the last accepted
  installation was for that slot and no cancellation came after it, and once the queue is handled
  an active hook has one wait armed;
- if every signal comes while a wait is armed, the hook does what the machine shows, late by what it
  owes for its queue;
- a signal that completes a wait is reported once when the queue is handled, whatever comes between,
  at the slot that was installed when it came;
- after a cancellation and the next handling of the queue the hook does nothing until an
  installation is accepted. -/
theorem sequential_refines_mode (steps : List Step)
    (hfree : ∀ s ∈ steps, s.isFailureFree = true) (hseq : Sequential steps) :
    ((fresh.after steps).hook.chains ≤ 1 ∧
      ((fresh.after steps).hook.installed = true → (fresh.after steps).hook.chains = 1) ∧
      ((fresh.after steps).hook.installed = false →
        (fresh.after steps).hook.source.armed = 0)) ∧
    ((fresh.after steps).hook.mode = Mode.idle.after steps ∧
      ∀ slot, ((fresh.after steps).hook.mode = .active slot ↔ LastInstalledFor slot steps) ∧
        ((fresh.after steps).hook.mode = .active slot →
          (fresh.after steps).hook.source.ready = [] →
          (fresh.after steps).hook.source.armed = 1)) ∧
    (SignalsAwaited steps →
      fresh.events steps ++ (fresh.after steps).hook.owed = Mode.idle.events steps) ∧
    (∀ before number between after,
      steps = before ++ .deliver number :: between ++ .run :: after → .run ∉ between →
      0 < (fresh.after before).hook.source.armed →
      ∃ slot, (fresh.after before).hook.mode = .active slot ∧
        ((fresh.after (before ++ .deliver number :: between)).step .run).2.events =
          report number slot) ∧
    ∀ before between after s rest,
      steps = before ++ .cancel none :: (between ++ .run :: after) ++ s :: rest →
      (fresh.after (before ++ [.cancel none])).installs (between ++ .run :: after ++ [s]) = [] →
      ((fresh.after (before ++ .cancel none :: (between ++ .run :: after))).step s).2.events =
        [] := by
  have hnow := sequenced_after hfree hseq
  refine ⟨⟨hnow.chains_le_one, hnow.chains_of_installed, hnow.armed_of_not_installed⟩,
    ⟨mode_after steps, fun slot => ⟨mode_eq_active_iff_lastInstalledFor steps slot, ?_⟩⟩,
    events_append_owed hfree hseq, ?_, ?_⟩
  · intro hmode hready
    have hone := hnow.chains_of_installed ((Hook.mode_eq_active_iff _ _).mp hmode).1
    rw [Hook.chains, Source.signals, hready] at hone
    exact hone
  · rintro before number between after rfl hrun harmed
    exact events_of_delivery (isFailureFree_of_append hfree) hseq.of_append hrun harmed
  · rintro before between after s rest rfl hby
    exact events_after_cancel (isFailureFree_of_append hfree) hseq.of_append.of_append hby

/-- The hook is cancelled between a signal and its handling, and installed for another slot after
that. -/
def handledBeforeInstall : List Step :=
  [.install (some 0), .deliver 15, .cancel none, .run, .run, .install (some 1), .deliver 2, .run]

/-- The signal is reported once, at the slot that it came for, and the later installation stands. -/
theorem sequential_refines_mode_handledBeforeInstall :
    (∀ s ∈ handledBeforeInstall, s.isFailureFree = true) ∧ Sequential handledBeforeInstall ∧
      SignalsAwaited handledBeforeInstall ∧
      fresh.events handledBeforeInstall ++ (fresh.after handledBeforeInstall).hook.owed =
        Mode.idle.events handledBeforeInstall ∧
      (∃ slot, (fresh.after [.install (some 0)]).hook.mode = .active slot ∧
        ((fresh.after [.install (some 0), .deliver 15, .cancel none]).step .run).2.events =
          report 15 slot) ∧
      ((fresh.after [.install (some 0), .deliver 15, .cancel none, .run]).step .run).2.events =
        [] := by
  have hfree : ∀ s ∈ handledBeforeInstall, s.isFailureFree = true := by decide
  have hseq : Sequential handledBeforeInstall := by
    simp [Sequential, handledBeforeInstall, Switchboard.Throughout, hook_step, Hook.react,
      Hook.installedBy, fresh, Hook.fresh, Hook.install, Hook.arm, Hook.complete, Hook.cancel,
      Hook.drained, Source.idle, Source.arm, Source.complete]
  have hawaited : SignalsAwaited handledBeforeInstall := by
    simp [SignalsAwaited, handledBeforeInstall, Switchboard.Throughout, hook_step, Hook.react,
      fresh, Hook.fresh, Hook.install, Hook.arm, Hook.complete, Hook.cancel, Hook.drained,
      Source.idle, Source.arm, Source.complete]
  obtain ⟨-, -, hevents, hdelivery, hsilence⟩ := sequential_refines_mode _ hfree hseq
  exact ⟨hfree, hseq, hawaited, hevents hawaited,
    hdelivery [.install (some 0)] 15 [.cancel none] _ rfl (by decide) (by decide),
    hsilence [.install (some 0), .deliver 15] [] [] .run _ rfl rfl⟩

end Runs

end MessageFeed.Signal
