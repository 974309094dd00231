import MessageFeed.Proofs.Signal.Course

/-!
# Where notice of a signal is given

A queued signal does not know for which slot the hook was installed when it came. It is noticed at
the slot that the hook has when its queue is handled, and that is the one it was last installed for,
be it after the signal. So the signals of a delivery are noticed at the slot that was installed then
if and only if no installation for another slot came last before the queue was handled
(`notices_of_delivery_iff`).
-/

set_option autoImplicit false

namespace MessageFeed.Signal

/-- The slot at which an event gives notice. -/
def Event.noticed? : Event → Option Slot
  | logged _ => none
  | notified slot => slot

/-- The slots at which the hook gives notice in a step, as often as it does. -/
def Reply.notices (reply : Reply) : List Slot :=
  reply.events.filterMap Event.noticed?

/-! ## Handling the queue -/

/-- Each signal is noticed once. -/
theorem noticed_flatMap_events (completions : List Completion) (slot : Slot) :
    (completions.flatMap (Completion.events (some slot))).filterMap Event.noticed? =
      List.replicate (completions.countP Completion.isSignal) slot := by
  induction completions with
  | nil => rfl
  | cons completion completions ih =>
    rw [List.flatMap_cons, List.filterMap_append, ih, List.countP_cons]
    cases completion with
    | signal number => rfl
    | aborted => rfl
    | failed reason => rfl

namespace Switchboard

/-- Handling the queue gives notice of each signal in it, at the target. -/
theorem notices_step_run (switchboard : Switchboard) (slot : Slot)
    (htarget : switchboard.hook.target = some slot) :
    (switchboard.step .run).2.notices =
      List.replicate switchboard.hook.source.signals slot := by
  rw [Reply.notices, events_step_run, Hook.owed, htarget, noticed_flatMap_events, Source.signals]

/-- A permit is stored after some events if it was stored before or an event gives notice of it. -/
theorem stored_foldl_absorb (switchboard : Switchboard) (events : List Event) (slot : Slot) :
    ((events.foldl absorb switchboard).permit slot).stored =
      ((switchboard.permit slot).stored || decide (slot ∈ events.filterMap Event.noticed?)) := by
  induction events generalizing switchboard with
  | nil => simp
  | cons event events ih =>
    rw [List.foldl_cons, ih]
    match event with
    | .logged entry => rfl
    | .notified none => rfl
    | .notified (some noticed) =>
      by_cases hslot : slot = noticed
      · simp [absorb, notify, setPermit, Event.noticed?, hslot, Shutdown.Permit.notify]
      · simp [absorb, notify, setPermit, Event.noticed?, hslot]

/-- Handling the queue leaves a permit at a slot if there was one, or if notice was given there. -/
theorem stored_step_run (switchboard : Switchboard) (slot : Slot) :
    ((switchboard.step .run).1.permit slot).stored =
      ((switchboard.permit slot).stored ||
        decide (slot ∈ (switchboard.step .run).2.notices)) := by
  rw [step_run, settle, stored_foldl_absorb]
  rfl

end Switchboard

/-! ## One delivery -/

section Delivery

open Switchboard (fresh after_append events_step_run target_after hook_after_snoc notices_step_run
  stored_step_run)

/-- The target after a signal and some steps is the slot of the last installation in them, or what
it was. -/
theorem target_after_deliver (before between : List Step) (number : Int) (slot : Slot)
    (htarget : (fresh.after before).hook.target = some slot) :
    (fresh.after (before ++ .deliver number :: between)).hook.target =
      some (((fresh.after (before ++ [.deliver number])).installs between).getLast?.getD slot) := by
  have hsteps : before ++ .deliver number :: between =
      (before ++ [.deliver number]) ++ between := by simp
  have hdelivered : (fresh.after (before ++ [.deliver number])).hook.target = some slot := by
    rw [hook_after_snoc, Hook.target_react, htarget]
    rfl
  rw [hsteps, after_append, target_after, hdelivered]
  cases ((fresh.after (before ++ [.deliver number])).installs between).getLast? <;> rfl

/-- Until the queue is handled, a signal stays in it for each wait that was armed when it came,
behind what was queued before. -/
theorem exists_ready_after_delivery (before between : List Step) (number : Int)
    (hrun : .run ∉ between) :
    ∃ later, (fresh.after (before ++ .deliver number :: between)).hook.source.ready =
      (fresh.after before).hook.source.ready ++
        List.replicate (fresh.after before).hook.source.armed (.signal number) ++ later := by
  obtain ⟨later, hlater⟩ :=
    exists_ready_after (fresh.after (before ++ [.deliver number])) between hrun
  rw [ready_after_deliver, ← after_append, List.append_assoc, List.singleton_append] at hlater
  exact ⟨later, hlater⟩

/-- **A signal is noticed at the slot that was installed when it came, unless the last installation
between that and the handling of the queue is for another slot.** The waits that a delivery
completes stand in the queue until it is handled, behind what was there and in front of what comes
later. Then each is noticed once, all at the slot of the last installation. No other slot gains a
permit. -/
theorem notices_of_delivery_iff (before between : List Step) (number : Int) (slot : Slot)
    (hmode : (fresh.after before).hook.mode = .active slot) (hrun : .run ∉ between) :
    ∃ earlier mine later last,
      (fresh.after before).hook.source.ready = earlier ∧
      mine = List.replicate (fresh.after before).hook.source.armed (.signal number) ∧
      (fresh.after (before ++ .deliver number :: between)).hook.source.ready =
        earlier ++ mine ++ later ∧
      last = ((fresh.after (before ++ [.deliver number])).installs between).getLast?.getD slot ∧
      ((fresh.after (before ++ .deliver number :: between)).step .run).2.events =
        earlier.flatMap (Completion.events (some last)) ++
          mine.flatMap (Completion.events (some last)) ++
          later.flatMap (Completion.events (some last)) ∧
      ((mine.flatMap (Completion.events (some last))).filterMap Event.noticed? =
        List.replicate mine.length slot ↔ mine = [] ∨ last = slot) ∧
      (mine ≠ [] → (((fresh.after (before ++ .deliver number :: between)).step .run).1.permit
        last).stored = true) ∧
      ∀ other, other ≠ last →
        (((fresh.after (before ++ .deliver number :: between)).step .run).1.permit other).stored =
          ((fresh.after (before ++ .deliver number :: between)).permit other).stored := by
  obtain ⟨-, htarget⟩ := (Hook.mode_eq_active_iff _ _).mp hmode
  have hlast := target_after_deliver before between number slot htarget
  obtain ⟨later, hready⟩ := exists_ready_after_delivery before between number hrun
  have hnotices := notices_step_run _ _ hlast
  refine ⟨_, _, later, _, rfl, rfl, hready, rfl, ?_, ?_, ?_, ?_⟩
  · rw [events_step_run, Hook.owed, hlast, hready, List.flatMap_append, List.flatMap_append]
  · -- As many notices as waits, all at one slot: the right one, or there are none.
    rw [noticed_flatMap_events, List.countP_replicate, List.length_replicate,
      List.replicate_eq_nil_iff]
    simp [Completion.isSignal, List.replicate_inj]
  · intro hmine
    have hpos : 0 < (fresh.after (before ++ .deliver number :: between)).hook.source.signals := by
      have harmed : 0 < (fresh.after before).hook.source.armed := by
        rw [ne_eq, List.replicate_eq_nil_iff] at hmine
        omega
      rw [Source.signals, hready, List.countP_append, List.countP_append, List.countP_replicate]
      simp only [Completion.isSignal, if_true]
      omega
    rw [stored_step_run, hnotices, Bool.or_eq_true, decide_eq_true_iff, List.mem_replicate]
    exact .inr ⟨by omega, rfl⟩
  · intro other hother
    have hnot : other ∉
        ((fresh.after (before ++ .deliver number :: between)).step .run).2.notices := by
      rw [hnotices, List.mem_replicate]
      exact fun h => hother h.2
    rw [stored_step_run, decide_eq_false hnot, Bool.or_false]

/-- The hook is cancelled, installed for another slot, and at last for the first one again. -/
def installedBack : List Step :=
  [.cancel none, .install (some 1), .cancel none, .install (some 0)]

/-- The notice is given at the first slot, although the hook was installed for another one in
between. -/
theorem notices_of_delivery_installedBack :
    (fresh.after [.install (some 0)]).hook.mode = .active 0 ∧ .run ∉ installedBack ∧
      ∃ earlier mine later last,
        (fresh.after [.install (some 0)]).hook.source.ready = earlier ∧
        mine = List.replicate (fresh.after [.install (some 0)]).hook.source.armed (.signal 15) ∧
        (fresh.after (.install (some 0) :: .deliver 15 :: installedBack)).hook.source.ready =
          earlier ++ mine ++ later ∧
        last = ((fresh.after [.install (some 0), .deliver 15]).installs
          installedBack).getLast?.getD 0 ∧
        ((fresh.after (.install (some 0) :: .deliver 15 :: installedBack)).step .run).2.events =
          earlier.flatMap (Completion.events (some last)) ++
            mine.flatMap (Completion.events (some last)) ++
            later.flatMap (Completion.events (some last)) ∧
        ((mine.flatMap (Completion.events (some last))).filterMap Event.noticed? =
          List.replicate mine.length 0 ↔ mine = [] ∨ last = 0) ∧
        (mine ≠ [] → (((fresh.after (.install (some 0) :: .deliver 15 :: installedBack)).step
          .run).1.permit last).stored = true) ∧
        ∀ other, other ≠ last →
          (((fresh.after (.install (some 0) :: .deliver 15 :: installedBack)).step .run).1.permit
            other).stored =
            ((fresh.after (.install (some 0) :: .deliver 15 :: installedBack)).permit
              other).stored :=
  ⟨by decide, by decide,
    notices_of_delivery_iff [.install (some 0)] installedBack 15 0 (by decide) (by decide)⟩

/-- A signal that comes while the hook is installed for slot 0 is noticed at slot 1, if the hook is
cancelled and installed for that slot before the queue is handled. Slot 1 gains the permit. -/
theorem notice_at_slot_installed_after_signal :
    (fresh.after [.install (some 0)]).hook.mode = .active 0 ∧
      ((fresh.after [.install (some 0), .deliver 15, .cancel none, .install (some 1),
        .cancel none]).step .run).2.notices = [1] ∧
      ((fresh.after [.install (some 0), .deliver 15, .cancel none, .install (some 1), .cancel none,
        .run]).step (.poll 0)).2.answer = .polled false ∧
      ((fresh.after [.install (some 0), .deliver 15, .cancel none, .install (some 1), .cancel none,
        .run]).step (.poll 1)).2.answer = .polled true := by
  have hnotices : ((fresh.after [.install (some 0), .deliver 15, .cancel none, .install (some 1),
      .cancel none]).step .run).2.notices = [1] := by
    rw [notices_step_run _ 1 (by decide)]
    decide
  have hstored : ∀ slot, ((fresh.after [.install (some 0), .deliver 15, .cancel none,
      .install (some 1), .cancel none, .run]).permit slot).stored = decide (slot ∈ [1]) := by
    intro slot
    rw [← hnotices]
    exact stored_step_run _ slot
  refine ⟨by decide, hnotices, ?_, ?_⟩
  · exact congrArg Answer.polled (hstored 0)
  · exact congrArg Answer.polled (hstored 1)

end Delivery

end MessageFeed.Signal
