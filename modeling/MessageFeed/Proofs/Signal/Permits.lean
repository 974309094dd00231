import MessageFeed.Proofs.Signal.Notices

/-!
# Where the permit of a slot comes from

Of all that can happen to a switchboard, two things give the permit of a slot: notice at the slot,
and the handling of a queue that holds a signal while the last accepted installation is for the slot
(`GivesPermit`). One thing takes it: a poll of the slot that finds it stored (`TakesPermit`). What a
step does to the permit is one equivalence (`stored_step_iff`), and by induction from the end a
permit is stored exactly if one was given and none taken since (`stored_after_iff`), in a run of any
steps whatever. The answer of a poll tells which (`polled_iff_permitGiven`).
-/

set_option autoImplicit false

namespace MessageFeed.Signal

open Switchboard (fresh)

/-- The last installation in some steps that was not refused was for this slot. -/
def LastAcceptedFor (slot : Slot) (steps : List Step) : Prop :=
  Switchboard.Since
    (fun switchboard s => s = .install (some slot) ∧ (switchboard.step s).2.answer = .done)
    (fun switchboard s => ∀ request, s = .install request →
      (switchboard.step s).2.answer ≠ .done) steps

/-- After some steps, a step gives the permit of a slot: it is notice at the slot, or it handles a
queue with a signal in it while the last accepted installation is for the slot. -/
def GivesPermit (slot : Slot) (before : List Step) (s : Step) : Prop :=
  s = .notify slot ∨
    s = .run ∧ (∃ number, .signal number ∈ (fresh.after before).hook.source.ready) ∧
      LastAcceptedFor slot before

/-- A step takes the permit of a slot: it is a poll of the slot that answers so. -/
def TakesPermit (slot : Slot) (switchboard : Switchboard) (s : Step) : Prop :=
  s = .poll slot ∧ (switchboard.step s).2.answer = .polled true

/-- One of some steps gave the permit of a slot, and none after it took it. -/
def PermitGiven (slot : Slot) (steps : List Step) : Prop :=
  ∃ before s between, steps = before ++ s :: between ∧ GivesPermit slot before s ∧
    (fresh.after (before ++ [s])).Throughout (fun switchboard t => ¬ TakesPermit slot switchboard t)
      between

/-! ## One step -/

/-- A hook gives no notice but when its queue is handled. -/
theorem noticed_react_of_ne_run (hook : Hook) (s : Step) (hrun : s ≠ .run) :
    (hook.react s).2.filterMap Event.noticed? = [] := by
  have h := hook.reaction s
  generalize hook.react s = r at h
  cases h with
  | handled => exact absurd rfl hrun
  | _ => rfl

namespace Switchboard

variable (switchboard : Switchboard)

/-- Handling the queue gives notice at the slot of the hook, if there is a signal to handle. -/
theorem mem_notices_step_run_iff (slot : Slot) :
    slot ∈ (switchboard.step .run).2.notices ↔
      switchboard.hook.target = some slot ∧
        ∃ number, .signal number ∈ switchboard.hook.source.ready := by
  unfold Reply.notices
  rw [events_step_run, Hook.owed, List.mem_filterMap]
  constructor
  · rintro ⟨event, hevent, hnoticed⟩
    obtain ⟨completion, hready, hmem⟩ := List.mem_flatMap.mp hevent
    cases completion with
    | signal number =>
      simp only [Completion.events, List.mem_cons, List.not_mem_nil, or_false] at hmem
      rcases hmem with rfl | rfl | rfl
      · cases hnoticed
      · cases hnoticed
      · exact ⟨hnoticed, number, hready⟩
    | aborted => cases hmem
    | failed reason =>
      rw [List.mem_singleton.mp hmem] at hnoticed
      cases hnoticed
  · rintro ⟨htarget, number, hready⟩
    refine ⟨.notified switchboard.hook.target, ?_, htarget⟩
    exact List.mem_flatMap.mpr ⟨.signal number, hready, by simp [Completion.events]⟩

/-- An installation is refused and leaves everything as it is, or it changes the hook. -/
theorem step_install (request : Option Slot) :
    (∃ error, switchboard.step (.install request) = (switchboard, ⟨.refused error, []⟩)) ∨
      ∃ change, switchboard.step (.install request) = switchboard.settle change := by
  cases h : switchboard.hook.install request with
  | error refusal => exact .inl ⟨refusal, by simp [step, h]⟩
  | ok change => exact .inr ⟨change, by simp [step, h]⟩

/-- The notices of a step of the hook are all that it does to the permits. -/
theorem stored_step_of_hook (s : Step) (slot : Slot) (hnotify : ∀ other, s ≠ .notify other)
    (hpoll : ∀ other, s ≠ .poll other) :
    ((switchboard.step s).1.permit slot).stored =
      ((switchboard.permit slot).stored || decide (slot ∈ (switchboard.step s).2.notices)) := by
  cases s with
  | install request =>
    rcases switchboard.step_install request with ⟨refusal, h⟩ | ⟨change, h⟩
    · simp [h, Reply.notices]
    · rw [h]
      exact stored_foldl_absorb _ _ slot
  | cancel failure => exact stored_foldl_absorb _ _ slot
  | deliver number => exact stored_foldl_absorb _ _ slot
  | fail reason => exact stored_foldl_absorb _ _ slot
  | run => exact stored_step_run switchboard slot
  | notify other => exact absurd rfl (hnotify other)
  | poll other => exact absurd rfl (hpoll other)

/-- A permit is stored after a step if the step is notice at its slot, or handles a signal while the
hook has this slot, or if it was stored before and the step does not take it. -/
theorem stored_step_iff (s : Step) (slot : Slot) :
    ((switchboard.step s).1.permit slot).stored = true ↔
      (s = .notify slot ∨ s = .run ∧
        (∃ number, .signal number ∈ switchboard.hook.source.ready) ∧
          switchboard.hook.target = some slot) ∨
        (switchboard.permit slot).stored = true ∧ ¬ TakesPermit slot switchboard s := by
  by_cases hnotify : ∃ other, s = .notify other
  · obtain ⟨other, rfl⟩ := hnotify
    by_cases hother : slot = other
    · simp [step, notify, setPermit, Shutdown.Permit.notify, hother]
    · simp [step, notify, setPermit, TakesPermit, hother, Ne.symm hother]
  by_cases hpoll : ∃ other, s = .poll other
  · obtain ⟨other, rfl⟩ := hpoll
    by_cases hother : slot = other
    · subst hother
      simp [step, setPermit, TakesPermit, Shutdown.Permit.take, Shutdown.Permit.absent]
    · simp [step, setPermit, TakesPermit, hother, Ne.symm hother]
  rw [not_exists] at hnotify hpoll
  have htakes : ¬ TakesPermit slot switchboard s := fun h => hpoll slot h.1
  rw [stored_step_of_hook switchboard s slot hnotify hpoll, Bool.or_eq_true, decide_eq_true_iff]
  by_cases hrun : s = .run
  · subst hrun
    rw [mem_notices_step_run_iff]
    simp [htakes, or_comm, and_comm]
  · have hnone : slot ∉ (switchboard.step s).2.notices := by
      unfold Reply.notices
      rw [events_step, noticed_react_of_ne_run switchboard.hook s hrun]
      exact List.not_mem_nil
    simp [htakes, hnone, hrun, hnotify slot]

/-- An installation that is not refused is the one that sets the slot of the hook. -/
theorem installedBy_eq_some_iff_done (s : Step) (slot : Slot) :
    switchboard.hook.installedBy s = some slot ↔
      s = .install (some slot) ∧ (switchboard.step s).2.answer = .done := by
  rw [Hook.installedBy_eq_some_iff]
  constructor
  · rintro ⟨rfl, hoff⟩
    simp [step, Hook.install, hoff, settle]
  · rintro ⟨rfl, hdone⟩
    refine ⟨rfl, ?_⟩
    cases hinstalled : switchboard.hook.installed with
    | false => rfl
    | true => simp [step, Hook.install, hinstalled] at hdone

/-- A step installs no hook if and only if it is no installation that is accepted. -/
theorem installedBy_eq_none_iff (s : Step) :
    switchboard.hook.installedBy s = none ↔
      ∀ request, s = .install request → (switchboard.step s).2.answer ≠ .done := by
  constructor
  · rintro hnone request rfl hdone
    cases request with
    | none => simp [step, Hook.install] at hdone
    | some slot =>
      have hsome := (installedBy_eq_some_iff_done switchboard _ slot).mpr ⟨rfl, hdone⟩
      rw [hnone] at hsome
      cases hsome
  · intro hrefused
    cases hby : switchboard.hook.installedBy s with
    | none => rfl
    | some slot =>
      obtain ⟨rfl, hdone⟩ := (installedBy_eq_some_iff_done switchboard s slot).mp hby
      exact absurd hdone (hrefused _ rfl)

end Switchboard

/-! ## Runs -/

section Runs

open Switchboard (since_snoc not_since_nil hook_after_snoc stored_step_iff after_append after_cons
  after_nil installedBy_eq_some_iff_done installedBy_eq_none_iff)

/-- The slot of a hook is that of the last accepted installation. -/
theorem lastAcceptedFor_iff (steps : List Step) (slot : Slot) :
    LastAcceptedFor slot steps ↔ (fresh.after steps).hook.target = some slot := by
  induction steps using List.reverseRecOn with
  | nil =>
    refine iff_of_false not_since_nil ?_
    intro h
    cases h
  | append_singleton steps s ih =>
    unfold LastAcceptedFor at ih ⊢
    rw [since_snoc, ih, ← installedBy_eq_some_iff_done, ← installedBy_eq_none_iff, hook_after_snoc,
      Hook.target_react]
    cases (fresh.after steps).hook.installedBy s <;> simp

/-- Giving a permit can be told by the target of the hook. -/
theorem permitGiven_iff_since (steps : List Step) (slot : Slot) :
    PermitGiven slot steps ↔
      Switchboard.Since
        (fun switchboard s => s = .notify slot ∨ s = .run ∧
          (∃ number, .signal number ∈ switchboard.hook.source.ready) ∧
            switchboard.hook.target = some slot)
        (fun switchboard s => ¬ TakesPermit slot switchboard s) steps := by
  unfold PermitGiven GivesPermit Switchboard.Since
  simp only [lastAcceptedFor_iff]

/-- **A permit is stored exactly if it was given and not taken since.** -/
theorem stored_after_iff (steps : List Step) (slot : Slot) :
    ((fresh.after steps).permit slot).stored = true ↔ PermitGiven slot steps := by
  rw [permitGiven_iff_since]
  induction steps using List.reverseRecOn with
  | nil =>
    refine iff_of_false ?_ not_since_nil
    intro h
    cases h
  | append_singleton steps s ih =>
    rw [since_snoc, ← ih, after_append, after_cons, after_nil, stored_step_iff]

/-- A step that neither gives nor takes the permit of a slot leaves it as it is. -/
theorem stored_step_eq (steps : List Step) (slot : Slot) (s : Step)
    (hgives : ¬ GivesPermit slot steps s) (htakes : ¬ TakesPermit slot (fresh.after steps) s) :
    (((fresh.after steps).step s).1.permit slot).stored =
      ((fresh.after steps).permit slot).stored := by
  unfold GivesPermit at hgives
  rw [lastAcceptedFor_iff] at hgives
  rw [Bool.eq_iff_iff, stored_step_iff]
  simp [hgives, htakes]

/-- An installation that is refused leaves all permits as they are. -/
theorem stored_step_of_refused (steps : List Step) (slot : Slot) (s : Step) (error : InstallError)
    (h : ((fresh.after steps).step s).2.answer = .refused error) :
    (((fresh.after steps).step s).1.permit slot).stored =
      ((fresh.after steps).permit slot).stored := by
  apply stored_step_eq
  · rintro (rfl | ⟨rfl, -⟩)
    · cases h
    · cases h
  · rintro ⟨rfl, -⟩
    cases h

/-- Handling a queue without a signal leaves all permits as they are. -/
theorem stored_step_run_of_no_signal (steps : List Step) (slot : Slot)
    (h : ∀ number, .signal number ∉ (fresh.after steps).hook.source.ready) :
    (((fresh.after steps).step .run).1.permit slot).stored =
      ((fresh.after steps).permit slot).stored := by
  apply stored_step_eq
  · rintro (hrun | ⟨-, ⟨number, hready⟩, -⟩)
    · cases hrun
    · exact h number hready
  · rintro ⟨hrun, -⟩
    cases hrun

/-- Steps that are about another slot leave the permit of a slot as it is. -/
theorem stored_step_of_other (steps : List Step) (slot other : Slot) (s : Step)
    (hother : other ≠ slot)
    (h : s = .install (some other) ∨ s = .notify other ∨ s = .poll other ∨
      s = .run ∧ LastAcceptedFor other steps) :
    (((fresh.after steps).step s).1.permit slot).stored =
      ((fresh.after steps).permit slot).stored := by
  apply stored_step_eq
  · rintro (rfl | ⟨rfl, -, hlast⟩)
    · simp [Ne.symm hother] at h
    · -- The last accepted installation is for one slot only.
      have hboth : LastAcceptedFor other steps := by simpa using h
      rw [lastAcceptedFor_iff] at hlast hboth
      rw [hlast] at hboth
      exact hother (Option.some.inj hboth).symm
  · rintro ⟨rfl, -⟩
    simp [Ne.symm hother] at h

/-- **A poll finds the permit of a slot exactly if it was given and not taken since.** In a run of
any steps, a poll of the slot answers that it took the permit if and only if, since the last poll
that took it, there was notice at the slot, or the queue was handled with a signal in it while the
last accepted installation was for the slot; otherwise it answers that it did not. No other step
changes the permit. In particular none is changed by a refused installation, by the handling of
waits that were called off or failed, or by a step that is about another slot. -/
theorem polled_iff_permitGiven (steps : List Step) (slot : Slot) :
    (((fresh.after steps).step (.poll slot)).2.answer = .polled true ↔ PermitGiven slot steps) ∧
    (((fresh.after steps).step (.poll slot)).2.answer = .polled false ↔
      ¬ PermitGiven slot steps) ∧
    (∀ s, ¬ GivesPermit slot steps s → ¬ TakesPermit slot (fresh.after steps) s →
      (((fresh.after steps).step s).1.permit slot).stored =
        ((fresh.after steps).permit slot).stored) ∧
    ∀ s, (∃ error, ((fresh.after steps).step s).2.answer = .refused error) ∨
        (s = .run ∧ ∀ number, .signal number ∉ (fresh.after steps).hook.source.ready) ∨
        (∃ other, other ≠ slot ∧ (s = .install (some other) ∨ s = .notify other ∨ s = .poll other ∨
          s = .run ∧ LastAcceptedFor other steps)) →
      (((fresh.after steps).step s).1.permit slot).stored =
        ((fresh.after steps).permit slot).stored := by
  have hanswer : ((fresh.after steps).step (.poll slot)).2.answer =
      .polled ((fresh.after steps).permit slot).stored := rfl
  have hstored := stored_after_iff steps slot
  refine ⟨?_, ?_, stored_step_eq steps slot, ?_⟩
  · rw [hanswer, Answer.polled.injEq, hstored]
  · rw [hanswer, Answer.polled.injEq, ← hstored, Bool.not_eq_true]
  · rintro s (⟨error, hrefused⟩ | ⟨rfl, hnone⟩ | ⟨other, hother, habout⟩)
    · exact stored_step_of_refused steps slot s error hrefused
    · exact stored_step_run_of_no_signal steps slot hnone
    · exact stored_step_of_other steps slot other s hother habout

/-- A signal comes for slot 0, and the hook is installed for slot 1 before the queue is handled. -/
def handledElsewhere : List Step :=
  [.install (some 0), .deliver 15, .cancel none, .install (some 1), .run]

/-- The permit is found at the slot of the later installation. -/
theorem polled_iff_permitGiven_handledElsewhere :
    PermitGiven 1 handledElsewhere ∧
      ((fresh.after handledElsewhere).step (.poll 1)).2.answer = .polled true ∧
      ((fresh.after handledElsewhere).step (.install (some 0))).2.answer =
        .refused .alreadyInstalled ∧
      (((fresh.after handledElsewhere).step (.install (some 0))).1.permit 1).stored =
        ((fresh.after handledElsewhere).permit 1).stored := by
  have hlast : LastAcceptedFor 1
      [.install (some 0), .deliver 15, .cancel none, .install (some 1)] := by
    rw [lastAcceptedFor_iff]
    rfl
  have hgiven : PermitGiven 1 handledElsewhere :=
    ⟨[.install (some 0), .deliver 15, .cancel none, .install (some 1)], .run, [], rfl,
      .inr ⟨rfl, ⟨15, by decide⟩, hlast⟩, trivial⟩
  have hrefused : ((fresh.after handledElsewhere).step (.install (some 0))).2.answer =
      .refused .alreadyInstalled := by
    have hhook : (fresh.after handledElsewhere).hook = ⟨true, some 1, ⟨2, []⟩⟩ := by
      rw [Switchboard.hook_after]
      rfl
    rw [Switchboard.step, hhook]
    rfl
  obtain ⟨hpolled, -, -, hkept⟩ := polled_iff_permitGiven handledElsewhere 1
  exact ⟨hgiven, hpolled.mpr hgiven, hrefused, hkept _ (.inl ⟨_, hrefused⟩)⟩

end Runs

end MessageFeed.Signal
