import MessageFeed.Proofs.Signal.Permits

/-!
# Handling the queue

The queue is handled in rounds: each takes the oldest completion out of it and handles that one. A
signal arms a wait again, but a wait armed now has not completed and does not join the queue, so
every round leaves the queue shorter by one, and handling ends after as many rounds as there were
completions (`handleUpTo_eq`, `handleUpTo_eq_drain`). On the way the hook keeps its slot and stays
installed or not as it is.

With that all that a run step does to a switchboard can be read off the queue before it
(`queueHandled_step_run`). A hook without a slot has never had a wait armed, so a completion is
never handled without a slot to give notice at (`exists_target_of_armed_or_ready`).
-/

set_option autoImplicit false

namespace MessageFeed.Signal

open Switchboard (fresh)

/-- What is logged when a completion is handled. -/
def Completion.log : Completion → List Log.Entry
  | signal number =>
    [Log.info (.ofString "Received termination signal, initiating graceful shutdown..."),
     Log.debug (.ofString "Signal number: " ++ Bytes.signedDecimal number)]
  | aborted => []
  | failed reason => [Log.error (.ofString "Signal wait error: " ++ reason)]

namespace Hook

/-- Takes the oldest completion out of the queue and handles it, if there is one. -/
def handleNext? (hook : Hook) : Option (Hook × List Event) :=
  match hook.source.ready with
  | [] => none
  | completion :: rest =>
    some ({ hook with source := { hook.source with ready := rest } }.handle completion)

/-- Handles completions one after another, in no more rounds than given. -/
def handleUpTo : (rounds : Nat) → (hook : Hook) → Hook × List Event
  | 0, hook => (hook, [])
  | rounds + 1, hook =>
    match hook.handleNext? with
    | none => (hook, [])
    | some (next, events) => ((handleUpTo rounds next).1, events ++ (handleUpTo rounds next).2)

end Hook

/-- What it means that the queue of a switchboard is handled: the switchboard before it, after it,
and the reply. -/
structure QueueHandled (before after : Switchboard) (reply : Reply) : Prop where
  answer : reply.answer = .done
  ready : after.hook.source.ready = []
  installed : after.hook.installed = before.hook.installed
  target : after.hook.target = before.hook.target
  armed : after.hook.source.armed = before.hook.source.armed +
    if before.hook.installed then before.hook.source.ready.countP Completion.isSignal else 0
  log : reply.log = before.hook.source.ready.flatMap Completion.log
  permit_target : ∀ slot, before.hook.target = some slot → ((after.permit slot).stored = true ↔
    (before.permit slot).stored = true ∨ ∃ number, .signal number ∈ before.hook.source.ready)
  permit_other : ∀ slot, before.hook.target ≠ some slot → after.permit slot = before.permit slot

/-! ## Rounds -/

namespace Hook

/-- **Some rounds, closed form.** They handle as many completions from the front of the queue. If
the hook is installed, each signal among these arms one wait. -/
theorem handleUpTo_eq (hook : Hook) (rounds : Nat) :
    hook.handleUpTo rounds =
      ({ hook with
          source := ⟨hook.source.armed + (if hook.installed then
            (hook.source.ready.take rounds).countP Completion.isSignal else 0),
            hook.source.ready.drop rounds⟩ },
        (hook.source.ready.take rounds).flatMap (Completion.events hook.target)) := by
  obtain ⟨installed, target, armed, ready⟩ := hook
  induction rounds generalizing armed ready with
  | zero => simp [handleUpTo]
  | succ rounds ih =>
    cases ready with
    | nil => simp [handleUpTo, handleNext?]
    | cons completion rest =>
      simp only [handleUpTo, handleNext?, handle_eq, Hook.arm, Source.arm]
      -- The round may arm a wait; the rounds after it go on from there.
      cases installed <;> cases hsignal : completion.isSignal
      all_goals simp [ih, hsignal]
      omega

/-- Once there have been as many rounds as completions, the queue is handled, and more rounds change
nothing. -/
theorem handleUpTo_eq_drain (hook : Hook) (rounds : Nat)
    (h : hook.source.ready.length ≤ rounds) : hook.handleUpTo rounds = hook.drain := by
  rw [handleUpTo_eq, drain_eq_drained, List.take_of_length_le h, List.drop_eq_nil_of_le h]
  rfl

end Hook

/-! ## The run step -/

namespace Switchboard

/-- Handling the queue logs what there is to log about each completion in it, in order. -/
theorem log_step_run (switchboard : Switchboard) :
    (switchboard.step .run).2.log = switchboard.hook.source.ready.flatMap Completion.log := by
  unfold Reply.log
  rw [events_step_run, Hook.owed, List.filterMap_flatMap]
  congr 1
  funext completion
  cases completion <;> rfl

/-- A run step handles the queue. -/
theorem queueHandled_step_run (switchboard : Switchboard) :
    QueueHandled switchboard (switchboard.step .run).1 (switchboard.step .run).2 := by
  have hhook : (switchboard.step .run).1.hook = switchboard.hook.drained.1 :=
    hook_step switchboard .run
  have hstored := stored_step_iff switchboard .run
  have htakes : ∀ slot, ¬ TakesPermit slot switchboard .run := by
    rintro slot ⟨hpoll, -⟩
    cases hpoll
  refine ⟨rfl, ?_, ?_, ?_, ?_, log_step_run switchboard, ?_, ?_⟩
  · rw [hhook]
    rfl
  · rw [hhook]
    rfl
  · rw [hhook]
    rfl
  · rw [hhook]
    rfl
  · intro slot htarget
    rw [hstored slot]
    simp [htarget, htakes slot, or_comm]
  · intro slot htarget
    have hsame : ((switchboard.step .run).1.permit slot).stored =
        (switchboard.permit slot).stored := by
      rw [Bool.eq_iff_iff, hstored slot]
      simp [htarget, htakes slot]
    exact congrArg Shutdown.Permit.mk hsame

/-- Handling an empty queue does nothing. -/
theorem step_run_of_ready_eq_nil (switchboard : Switchboard)
    (h : switchboard.hook.source.ready = []) :
    switchboard.step .run = (switchboard, ⟨.done, []⟩) := by
  have hdrained : switchboard.hook.drained = (switchboard.hook, []) := by
    obtain ⟨⟨installed, target, armed, ready⟩, permit⟩ := switchboard
    obtain rfl : ready = [] := h
    simp [Hook.drained, Source.signals]
  rw [step_run, hdrained]
  rfl

end Switchboard

/-- **What a run step does, in full.** In any state that a hook can come to, and whatever is queued,
handling the queue leaves it empty and the hook with its slot, installed or not as before. An
installed hook has one wait more armed for each signal, and no other hook has. The log tells of each
completion in order. The slot of the hook has its permit afterwards if it had it before or there was
a signal; no other permit changes. In between, each round takes one completion out of the queue,
whatever waits it arms, and leaves the hook its slot and installed or not. So handling ends when
each completion has been handled once; and handling the queue again at once does nothing. -/
theorem run_step_closed_form (steps : List Step) :
    QueueHandled (fresh.after steps) ((fresh.after steps).step .run).1
      ((fresh.after steps).step .run).2 ∧
    (∀ rounds, ((fresh.after steps).hook.handleUpTo rounds).1.source.ready =
        (fresh.after steps).hook.source.ready.drop rounds ∧
      ((fresh.after steps).hook.handleUpTo rounds).1.installed =
        (fresh.after steps).hook.installed ∧
      ((fresh.after steps).hook.handleUpTo rounds).1.target = (fresh.after steps).hook.target) ∧
    (∀ rounds, (fresh.after steps).hook.source.ready.length ≤ rounds →
      (fresh.after steps).hook.handleUpTo rounds = (fresh.after steps).hook.drain) ∧
    ((fresh.after steps).step .run).1.step .run =
      (((fresh.after steps).step .run).1, ⟨.done, []⟩) := by
  have hhandled := (fresh.after steps).queueHandled_step_run
  refine ⟨hhandled, ?_, (fresh.after steps).hook.handleUpTo_eq_drain, ?_⟩
  · intro rounds
    rw [Hook.handleUpTo_eq]
    exact ⟨rfl, rfl, rfl⟩
  · exact Switchboard.step_run_of_ready_eq_nil _ hhandled.ready

/-- A signal, a wait that was called off and one that failed, all queued while the hook was
installed for one slot after another. -/
def mixedQueue : List Step :=
  [.install (some 0), .deliver 15, .cancel none, .install (some 1), .cancel none,
    .install (some 2), .fail (.ofString "lost")]

/-- All three outcomes are handled in one run, at the slot of the last installation, and one wait is
armed. -/
theorem run_step_closed_form_mixedQueue :
    (fresh.after mixedQueue).hook =
        ⟨true, some 2, ⟨0, [.signal 15, .aborted, .failed (.ofString "lost")]⟩⟩ ∧
      ((fresh.after mixedQueue).step .run).1.hook.source.ready = [] ∧
      ((fresh.after mixedQueue).step .run).1.hook.source.armed = 1 ∧
      ((fresh.after mixedQueue).step .run).2.log =
        [Log.info (.ofString "Received termination signal, initiating graceful shutdown..."),
          Log.debug (.ofString "Signal number: 15"),
          Log.error (.ofString "Signal wait error: lost")] ∧
      (((fresh.after mixedQueue).step .run).1.permit 2).stored = true ∧
      ((fresh.after mixedQueue).step .run).1.permit 0 = (fresh.after mixedQueue).permit 0 ∧
      (fresh.after mixedQueue).hook.handleUpTo 3 = (fresh.after mixedQueue).hook.drain := by
  have hhook : (fresh.after mixedQueue).hook =
      ⟨true, some 2, ⟨0, [.signal 15, .aborted, .failed (.ofString "lost")]⟩⟩ := by
    rw [Switchboard.hook_after]
    decide
  obtain ⟨hhandled, -, hrounds, -⟩ := run_step_closed_form mixedQueue
  have harmed := hhandled.armed
  have hlog := hhandled.log
  rw [hhook] at harmed hlog
  refine ⟨hhook, hhandled.ready, harmed, hlog.trans (by decide), ?_, ?_,
    hrounds 3 (by rw [hhook]; decide)⟩
  · rw [hhandled.permit_target 2 (by rw [hhook])]
    exact .inr ⟨15, by rw [hhook]; decide⟩
  · exact hhandled.permit_other 0 (by rw [hhook]; decide)

/-! ## The slot that notice is given at -/

/-- A hook that has a wait armed or a completion queued has a slot, also between two rounds. -/
theorem exists_target_of_armed_or_ready (steps : List Step) (rounds : Nat)
    (h : 0 < ((fresh.after steps).hook.handleUpTo rounds).1.source.armed ∨
      ((fresh.after steps).hook.handleUpTo rounds).1.source.ready ≠ []) :
    ∃ slot, ((fresh.after steps).hook.handleUpTo rounds).1.target = some slot := by
  have hkept : ((fresh.after steps).hook.handleUpTo rounds).1.target =
      (fresh.after steps).hook.target := by
    rw [Hook.handleUpTo_eq]
  rw [hkept]
  cases htarget : (fresh.after steps).hook.target with
  | some slot => exact ⟨slot, rfl⟩
  | none =>
    -- A hook without a slot is as good as new, and on a new one nobody waits.
    rw [Switchboard.hook_after_of_target_eq_none steps htarget, Hook.handleUpTo_eq] at h
    simp [Hook.fresh, Source.idle] at h

/-- No completion gives notice without a slot if the hook has one. -/
theorem notified_none_not_mem_events (slot : Slot) (completion : Completion) :
    Event.notified none ∉ completion.events (some slot) := by
  cases completion <;> simp [Completion.events]

/-- In no step is a signal noticed at no slot. -/
theorem notified_none_not_mem_step (steps : List Step) (s : Step) :
    Event.notified none ∉ ((fresh.after steps).step s).2.events := by
  rw [Switchboard.events_step]
  have h := (fresh.after steps).hook.reaction s
  generalize (fresh.after steps).hook.react s = r at h
  cases h with
  | handled =>
    intro hmem
    obtain ⟨completion, hready, hevent⟩ := List.mem_flatMap.mp hmem
    obtain ⟨slot, hslot⟩ :=
      exists_target_of_armed_or_ready steps 0 (.inr (List.ne_nil_of_mem hready))
    have htarget : (fresh.after steps).hook.target = some slot := hslot
    rw [htarget] at hevent
    exact notified_none_not_mem_events slot completion hevent
  | _ => simp

/-- **A completion is never handled without a slot.** In any state that a hook can come to, a hook
on which a wait is armed or a completion is queued has a slot. It still has one in whichever round
of handling its queue the completion comes up, so no step ever gives notice at no slot. A slot, once
set, is never taken away, not by a cancellation either; it is only replaced by another. -/
theorem handled_with_slot (steps : List Step) :
    (0 < (fresh.after steps).hook.source.armed ∨ (fresh.after steps).hook.source.ready ≠ [] →
      ∃ slot, (fresh.after steps).hook.target = some slot) ∧
    (∀ rounds completion rest,
      ((fresh.after steps).hook.handleUpTo rounds).1.source.ready = completion :: rest →
        ∃ slot, ((fresh.after steps).hook.handleUpTo rounds).1.target = some slot) ∧
    (∀ s, .notified none ∉ ((fresh.after steps).step s).2.events) ∧
    ∀ slot later, (fresh.after steps).hook.target = some slot →
      ∃ other, (fresh.after (steps ++ later)).hook.target = some other := by
  refine ⟨exists_target_of_armed_or_ready steps 0, ?_, notified_none_not_mem_step steps, ?_⟩
  · intro rounds completion rest hready
    apply exists_target_of_armed_or_ready steps rounds
    right
    rw [hready]
    exact List.cons_ne_nil completion rest
  · intro slot later htarget
    rw [Switchboard.after_append, Switchboard.target_after, htarget]
    cases ((fresh.after steps).installs later).getLast? with
    | none => exact ⟨slot, rfl⟩
    | some other => exact ⟨other, rfl⟩

/-- A signal is queued, and the hook is cancelled, refused to no slot and left armed on the way. -/
def queuedAfterCancel : List Step :=
  [.install none, .install (some 1), .cancel (some (.ofString "busy")), .deliver 15, .install none,
    .cancel none]

/-- The signal is handled while the hook is not installed, and has a slot all the same. -/
theorem handled_with_slot_queuedAfterCancel :
    (fresh.after queuedAfterCancel).hook.source.ready = [.signal 15] ∧
      (fresh.after queuedAfterCancel).hook.installed = false ∧
      (∃ slot, (fresh.after queuedAfterCancel).hook.target = some slot) ∧
      (∃ slot, ((fresh.after queuedAfterCancel).hook.handleUpTo 0).1.target = some slot) ∧
      .notified none ∉ ((fresh.after queuedAfterCancel).step .run).2.events ∧
      ∃ other, (fresh.after (queuedAfterCancel ++ [.run, .cancel none])).hook.target =
        some other := by
  have hready : (fresh.after queuedAfterCancel).hook.source.ready = [.signal 15] := by
    rw [Switchboard.hook_after]
    decide
  have hoff : (fresh.after queuedAfterCancel).hook.installed = false := by
    rw [Switchboard.hook_after]
    decide
  have htarget : (fresh.after queuedAfterCancel).hook.target = some 1 := by
    rw [Switchboard.hook_after]
    decide
  obtain ⟨hslot, hround, hnotified, hlater⟩ := handled_with_slot queuedAfterCancel
  exact ⟨hready, hoff, hslot (.inr (by rw [hready]; decide)), hround 0 (.signal 15) [] hready,
    hnotified .run, hlater 1 [.run, .cancel none] htarget⟩

end MessageFeed.Signal
