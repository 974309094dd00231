import MessageFeed.Proofs.Signal.Notices

/-!
# What a hook that is installed has to wait for

A hook should have a wait armed when it is installed and its queue is handled, and none when it is
not installed. The first fails when the source fails: that ends a wait, and no other is armed for it
(`armed_of_installed_iff`). The second fails when the source fails to call the waits off: the hook
counts as not installed all the same, so a second cancellation does not ask the source again
(`armed_of_not_installed_iff`). Nothing else makes either of them fail.
-/

set_option autoImplicit false

namespace MessageFeed.Signal

/-- Whether a step leaves the armed waits of a hook that is not installed as they are, and the hook
as not installed. -/
def Step.leavesWaits : Step → Bool
  | install (some _) => false
  | deliver _ => false
  | fail _ => false
  | _ => true

/-- An installed hook with a wait was cancelled, the source failed to call the wait off, and nothing
has completed it or installed the hook since. -/
def AbandonsWaits (steps : List Step) : Prop :=
  Switchboard.Since
    (fun switchboard s => (∃ reason, s = .cancel (some reason)) ∧
      switchboard.hook.installed = true ∧ 0 < switchboard.hook.source.armed)
    (fun _ s => s.leavesWaits = true) steps

/-- The source failed while the hook was installed and no signal was queued, and the hook has not
been cancelled since. -/
def LosesWait (steps : List Step) : Prop :=
  Switchboard.Since
    (fun switchboard s => (∃ reason, s = .fail reason) ∧
      switchboard.hook.installed = true ∧ switchboard.hook.source.signals = 0)
    (fun _ s => s.isCancel = false) steps

namespace Hook

variable (hook : Hook) (s : Step)

/-! ## One step -/

/-- A hook that is not installed has a wait armed after a step if the step is a failed cancellation,
or if it was so before. -/
theorem armed_of_not_installed_react_iff :
    ((hook.react s).1.installed = false ∧ 0 < (hook.react s).1.source.armed) ↔
      ((∃ reason, s = .cancel (some reason)) ∧ hook.installed = true ∧ 0 < hook.source.armed) ∨
        (hook.installed = false ∧ 0 < hook.source.armed) ∧ s.leavesWaits = true := by
  have hreaction := hook.reaction s
  generalize hook.react s = r at hreaction
  cases hreaction with
  | ignored _ h =>
    cases hinstalled : hook.installed with
    | false =>
      have hleaves : s.leavesWaits = true := by
        cases s with
        | install request =>
          cases request with
          | none => rfl
          | some slot => simp [ignores, hinstalled] at h
        | deliver number => cases h
        | fail reason => cases h
        | _ => rfl
      simp [hleaves]
    | true =>
      have hcancel : ∀ reason, s ≠ .cancel (some reason) := by
        rintro reason rfl
        simp [ignores, hinstalled] at h
      simp [hcancel]
  | installed slot _ => simp [arm, Step.leavesWaits]
  | cancelled h => simp [complete, Source.complete, h]
  | leftArmed reason h => simp [h]
  | delivered number => simp [complete, Source.complete, Step.leavesWaits]
  | failed reason => simp [complete, Source.complete, Step.leavesWaits]
  | handled =>
    cases hinstalled : hook.installed <;> simp [drained, hinstalled, Step.leavesWaits]

/-- An installed hook has no chain after a step if the step is a failure of the source that finds no
signal queued, or if it was so before. -/
theorem chains_of_installed_react_iff :
    ((hook.react s).1.installed = true ∧ (hook.react s).1.chains = 0) ↔
      ((∃ reason, s = .fail reason) ∧ hook.installed = true ∧ hook.source.signals = 0) ∨
        (hook.installed = true ∧ hook.chains = 0) ∧ s.isCancel = false := by
  have hreaction := hook.reaction s
  generalize hook.react s = r at hreaction
  cases hreaction with
  | ignored _ h =>
    have hfail : ∀ reason, s ≠ .fail reason := by
      rintro reason rfl
      cases h
    cases hcancel : s.isCancel with
    | false => simp [hfail]
    | true => simp [hfail, not_installed_of_ignores_cancel h hcancel]
  | installed slot h => simp [arm, Source.arm, chains, h]
  | cancelled _ => simp [complete, Step.isCancel]
  | leftArmed reason _ => simp [Step.isCancel]
  | delivered number =>
    rw [chains_complete_signal]
    simp [complete, Step.isCancel]
  | failed reason =>
    -- The waits end, so only the signals in the queue are left.
    have hless : hook.source.signals ≤ hook.chains := Nat.le_add_left _ _
    have hleft : (hook.complete (.failed reason)).chains = hook.source.signals :=
      chains_complete hook (.failed reason)
    rw [hleft]
    constructor
    · exact fun h => .inl ⟨⟨reason, rfl⟩, h⟩
    · rintro (⟨-, h⟩ | ⟨⟨hon, hnone⟩, -⟩)
      · exact h
      · exact ⟨hon, by omega⟩
  | handled =>
    rw [chains_drained, chains]
    cases hinstalled : hook.installed <;> simp [drained, hinstalled, Step.isCancel]

end Hook

/-! ## Runs -/

section Runs

open Switchboard (fresh hook_after_snoc since_snoc not_since_nil hook_after_of_target_eq_none
  exists_mode_of_installed notices_step_run events_step_run hook_step)

/-- A wait is armed without the hook being installed if and only if waits were abandoned. -/
theorem armed_and_not_installed_iff (steps : List Step) :
    ((fresh.after steps).hook.installed = false ∧ 0 < (fresh.after steps).hook.source.armed) ↔
      AbandonsWaits steps := by
  induction steps using List.reverseRecOn with
  | nil =>
    refine iff_of_false ?_ not_since_nil
    intro h
    exact absurd h.2 (Nat.lt_irrefl 0)
  | append_singleton steps s ih =>
    unfold AbandonsWaits at ih ⊢
    rw [hook_after_snoc, since_snoc, Hook.armed_of_not_installed_react_iff, ih]

/-- The hook is installed with neither a wait nor a signal if and only if its wait was lost. -/
theorem chains_eq_zero_and_installed_iff (steps : List Step) :
    ((fresh.after steps).hook.installed = true ∧ (fresh.after steps).hook.chains = 0) ↔
      LosesWait steps := by
  induction steps using List.reverseRecOn with
  | nil =>
    refine iff_of_false ?_ not_since_nil
    intro h
    exact absurd h.1 Bool.false_ne_true
  | append_singleton steps s ih =>
    unfold LosesWait at ih ⊢
    rw [hook_after_snoc, since_snoc, Hook.chains_of_installed_react_iff, ih]

/-! ## The next signal -/

/-- A signal that comes is queued for each armed wait. -/
theorem signals_deliver (switchboard : Switchboard) (number : Int) :
    (switchboard.step (.deliver number)).1.hook.source.signals =
      switchboard.hook.source.signals + switchboard.hook.source.armed := by
  rw [hook_step]
  exact switchboard.hook.source.signals_complete (.signal number)

/-- A signal that comes changes no target. -/
theorem target_deliver (switchboard : Switchboard) (number : Int) :
    (switchboard.step (.deliver number)).1.hook.target = switchboard.hook.target := by
  rw [hook_step]
  rfl

/-- A signal that comes next makes for one notice more for each wait that is armed. -/
theorem length_notices_deliver_run (steps : List Step) (number : Int) :
    ((((fresh.after steps).step (.deliver number)).1.step .run).2.notices).length =
      (((fresh.after steps).step .run).2.notices).length +
        (fresh.after steps).hook.source.armed := by
  cases htarget : (fresh.after steps).hook.target with
  | none =>
    have hfresh := hook_after_of_target_eq_none steps htarget
    simp only [Reply.notices, events_step_run, hook_step, hfresh]
    rfl
  | some slot =>
    rw [notices_step_run _ slot ((target_deliver _ number).trans htarget),
      notices_step_run _ slot htarget, List.length_replicate, List.length_replicate,
      signals_deliver]

/-- **A hook that is not installed has no wait armed, unless a failed cancellation left one.** A
signal that comes next is noticed once for each wait that is armed, so such a hook still gives
notice. A hook that is not installed does not ask its source to call the waits off, and every failed
cancellation of an installed hook leaves it so, with all its waits. -/
theorem armed_of_not_installed_iff (steps : List Step) :
    (((fresh.after steps).hook.installed = false → (fresh.after steps).hook.source.armed = 0) ↔
        ¬ AbandonsWaits steps) ∧
      (∀ number, ((((fresh.after steps).step (.deliver number)).1.step .run).2.notices).length =
        (((fresh.after steps).step .run).2.notices).length +
          (fresh.after steps).hook.source.armed) ∧
      ((fresh.after steps).hook.installed = false →
        ∀ failure, (fresh.after steps).step (.cancel failure) = (fresh.after steps, ⟨.done, []⟩)) ∧
      ∀ before reason, steps = before ++ [.cancel (some reason)] →
        (fresh.after before).hook.installed = true →
        (fresh.after steps).hook.installed = false ∧
          (fresh.after steps).hook.source.armed = (fresh.after before).hook.source.armed := by
  refine ⟨?_, length_notices_deliver_run steps, ?_, ?_⟩
  · rw [← armed_and_not_installed_iff, not_and, Nat.not_lt, Nat.le_zero]
  · intro hinstalled failure
    simp [Switchboard.step, Hook.cancel, hinstalled, Switchboard.settle]
  · rintro before reason rfl hinstalled
    rw [hook_after_snoc]
    simp [Hook.react, Hook.cancel, hinstalled]

/-- An installed hook that is cancelled while the source fails to call its wait off: it counts as
not installed, the wait stays armed through a second cancellation, and a signal is noticed. -/
theorem armed_of_failed_cancellation :
    (fresh.after [.install (some 0), .cancel (some (.ofString "busy"))]).hook.installed = false ∧
      (fresh.after [.install (some 0), .cancel (some (.ofString "busy"))]).hook.source.armed = 1 ∧
      (fresh.after [.install (some 0), .cancel (some (.ofString "busy")),
        .cancel none]).hook.source.armed = 1 ∧
      ((fresh.after [.install (some 0), .cancel (some (.ofString "busy")), .cancel none,
        .deliver 15]).step .run).2.notices = [0] := by
  refine ⟨by decide, by decide, by decide, ?_⟩
  rw [notices_step_run _ 0 (by decide)]
  decide

/-- **An installed hook whose queue is handled has a wait armed, unless a failure of the source
ended it.** Installing such a hook is refused either way. A signal that comes next is noticed once
for each wait that is armed; after the failure there is none, and the signal leaves no trace. -/
theorem armed_of_installed_iff (steps : List Step)
    (hready : (fresh.after steps).hook.source.ready = []) :
    (((fresh.after steps).hook.installed = true → 0 < (fresh.after steps).hook.source.armed) ↔
        ¬ LosesWait steps) ∧
      ∀ slot, ((fresh.after steps).step (.install (some slot))).2.answer =
          .refused .alreadyInstalled →
        ∃ target, (fresh.after steps).hook.mode = .active target ∧
          ∀ number,
            (((fresh.after steps).step (.deliver number)).1.step .run).2.notices =
              List.replicate (fresh.after steps).hook.source.armed target ∧
            ((((fresh.after steps).step (.deliver number)).1.step .run).2.events = [] ↔
              LosesWait steps) := by
  have hsignals : (fresh.after steps).hook.source.signals = 0 := by
    rw [Source.signals, hready]
    rfl
  have hchains : (fresh.after steps).hook.chains = (fresh.after steps).hook.source.armed := by
    rw [Hook.chains, hsignals, Nat.add_zero]
  have hloses := chains_eq_zero_and_installed_iff steps
  rw [hchains] at hloses
  constructor
  · rw [← hloses, not_and, Nat.pos_iff_ne_zero]
  · intro slot hrefused
    have hinstalled : (fresh.after steps).hook.installed = true := by
      cases h : (fresh.after steps).hook.installed with
      | true => rfl
      | false => simp [Switchboard.step, Hook.install, h, Switchboard.settle] at hrefused
    obtain ⟨target, hmode⟩ := exists_mode_of_installed steps hinstalled
    have htarget := ((Hook.mode_eq_active_iff _ _).mp hmode).2
    refine ⟨target, hmode, fun number => ⟨?_, ?_⟩⟩
    · rw [notices_step_run _ target ((target_deliver _ number).trans htarget), signals_deliver,
        hsignals, Nat.zero_add]
    · have hqueue : ((fresh.after steps).step (.deliver number)).1.hook.source.ready =
          List.replicate (fresh.after steps).hook.source.armed (.signal number) := by
        rw [hook_step, Hook.react, Hook.complete, Source.complete, hready, List.nil_append]
      rw [events_step_run, Hook.owed, hqueue, ← hloses]
      cases (fresh.after steps).hook.source.armed with
      | zero => simp [hinstalled]
      | succ armed => simp [List.replicate_succ, Completion.events]

/-- A wait is lost; then the hook is cancelled and installed again. -/
def installedAfterLoss : List Step :=
  [.install (some 0), .fail (.ofString "lost"), .cancel none, .run, .install (some 1)]

/-- The second installation makes good for the wait that the first one lost. -/
theorem armed_of_installed_installedAfterLoss :
    (fresh.after installedAfterLoss).hook.source.ready = [] ∧
      ((fresh.after installedAfterLoss).step (.install (some 2))).2.answer =
        .refused .alreadyInstalled ∧
      (((fresh.after installedAfterLoss).hook.installed = true →
          0 < (fresh.after installedAfterLoss).hook.source.armed) ↔
        ¬ LosesWait installedAfterLoss) ∧
      ∃ target, (fresh.after installedAfterLoss).hook.mode = .active target ∧
        ∀ number,
          (((fresh.after installedAfterLoss).step (.deliver number)).1.step .run).2.notices =
            List.replicate (fresh.after installedAfterLoss).hook.source.armed target ∧
          ((((fresh.after installedAfterLoss).step (.deliver number)).1.step .run).2.events = [] ↔
            LosesWait installedAfterLoss) := by
  have hhook : (fresh.after installedAfterLoss).hook = ⟨true, some 1, ⟨1, []⟩⟩ := by
    rw [Switchboard.hook_after]
    rfl
  have hready : (fresh.after installedAfterLoss).hook.source.ready = [] := by rw [hhook]
  have hrefused : ((fresh.after installedAfterLoss).step (.install (some 2))).2.answer =
      .refused .alreadyInstalled := by
    rw [Switchboard.step, hhook]
    rfl
  obtain ⟨harmed, hnext⟩ := armed_of_installed_iff _ hready
  exact ⟨hready, hrefused, harmed, hnext 2 hrefused⟩

/-- An installed hook whose only wait ended with a failure of the source: it counts as installed, so
that installing it is refused, and a signal leaves no trace. -/
theorem not_armed_of_failed_wait :
    (fresh.after [.install (some 0), .fail (.ofString "lost"), .run]).hook.source.ready = [] ∧
      (fresh.after [.install (some 0), .fail (.ofString "lost"), .run]).hook.installed = true ∧
      (fresh.after [.install (some 0), .fail (.ofString "lost"), .run]).hook.source.armed = 0 ∧
      ((fresh.after [.install (some 0), .fail (.ofString "lost"), .run]).step
        (.install (some 0))).2.answer = .refused .alreadyInstalled ∧
      ((fresh.after [.install (some 0), .fail (.ofString "lost"), .run, .deliver 15]).step
        .run).2.events = [] := by
  have hhook : (fresh.after [.install (some 0), .fail (.ofString "lost"), .run]).hook =
      ⟨true, some 0, .idle⟩ := by
    rw [Switchboard.hook_after]
    rfl
  refine ⟨by rw [hhook]; rfl, by rw [hhook], by rw [hhook]; rfl, ?_, ?_⟩
  · rw [Switchboard.step, hhook]
    rfl
  · rw [Switchboard.events_step, Switchboard.hook_after]
    rfl

end Runs

end MessageFeed.Signal
