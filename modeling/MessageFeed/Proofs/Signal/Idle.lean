import MessageFeed.Proofs.Signal.Permits

/-!
# Steps that come to nothing

An installation that is refused and a cancellation of a hook that is not installed are idle
(`isIdle`): the switchboard after such a step is the one it was made on, and the hook did nothing in
it (`step_of_isIdle`). So idle steps can be left out of a run. What every other step comes to, with
all that can be observed of the hook and of the permits after it, is the same without them
(`history_effective`).
-/

set_option autoImplicit false

namespace MessageFeed.Signal

/-- Whether an answer says that the step was refused. -/
def Answer.isRefused : Answer → Bool
  | refused _ => true
  | _ => false

namespace Switchboard

/-- Whether a step is idle: an installation that is refused, or a cancellation of a hook that is not
installed. -/
def isIdle (switchboard : Switchboard) : Step → Bool
  | .install request => (switchboard.step (.install request)).2.answer.isRefused
  | .cancel _ => !switchboard.hook.installed
  | _ => false

/-- Steps made one after another, each with the switchboard that it is made on. -/
def trail (switchboard : Switchboard) : List Step → List (Switchboard × Step)
  | [] => []
  | s :: steps => (switchboard, s) :: (switchboard.step s).1.trail steps

/-- What a step comes to on the switchboard that it is made on: the reply, and the switchboard after
it. -/
def outcome (made : Switchboard × Step) : Reply × Switchboard :=
  ((made.1.step made.2).2, (made.1.step made.2).1)

/-- The steps of a trail that are not idle. -/
def effective (trail : List (Switchboard × Step)) : List (Switchboard × Step) :=
  trail.filter fun made => !made.1.isIdle made.2

variable (switchboard : Switchboard)

/-- The first step comes to its outcome, and the others go on from there. -/
theorem history_cons (s : Step) (steps : List Step) :
    switchboard.history (s :: steps) =
      outcome (switchboard, s) :: (switchboard.step s).1.history steps := rfl

/-- Each step of a history comes to its outcome on the switchboard that it is made on. -/
theorem history_eq_map_trail (steps : List Step) :
    switchboard.history steps = (switchboard.trail steps).map outcome := by
  induction steps generalizing switchboard with
  | nil => rfl
  | cons s steps ih => rw [history_cons, trail, List.map_cons, ih]

/-- An installation that is refused changes nothing and does nothing. -/
theorem step_of_isRefused (request : Option Slot)
    (h : (switchboard.step (.install request)).2.answer.isRefused = true) :
    ∃ error, switchboard.step (.install request) = (switchboard, ⟨.refused error, []⟩) := by
  rcases switchboard.step_install request with hrefused | ⟨change, haccepted⟩
  · exact hrefused
  · rw [haccepted] at h
    cases h

/-- Cancelling a hook that is not installed changes nothing and does nothing. -/
theorem step_cancel_of_not_installed (failure : Option Bytes)
    (h : switchboard.hook.installed = false) :
    switchboard.step (.cancel failure) = (switchboard, ⟨.done, []⟩) := by
  simp [step, Hook.cancel, h, settle]

/-- An idle step changes nothing, and the hook does nothing in it. -/
theorem step_of_isIdle (s : Step) (h : switchboard.isIdle s = true) :
    (switchboard.step s).1 = switchboard ∧ (switchboard.step s).2.events = [] := by
  cases s with
  | install request =>
    obtain ⟨error, hstep⟩ := switchboard.step_of_isRefused request h
    rw [hstep]
    exact ⟨rfl, rfl⟩
  | cancel failure =>
    have hoff : switchboard.hook.installed = false := by simpa [isIdle] using h
    rw [switchboard.step_cancel_of_not_installed failure hoff]
    exact ⟨rfl, rfl⟩
  | _ => cases h

/-- **Without its idle steps, a run comes to what its other steps come to in it.** -/
theorem history_effective (steps : List Step) :
    switchboard.history ((effective (switchboard.trail steps)).map Prod.snd) =
      (effective (switchboard.trail steps)).map outcome := by
  induction steps generalizing switchboard with
  | nil => rfl
  | cons s steps ih =>
    unfold effective at ih ⊢
    cases hidle : switchboard.isIdle s with
    | true =>
      -- The steps after it are made on the same switchboard, with it or without it.
      rw [trail, (switchboard.step_of_isIdle s hidle).1,
        List.filter_cons_of_neg (by simp [hidle])]
      exact ih switchboard
    | false =>
      rw [trail, List.filter_cons_of_pos (by simp [hidle]), List.map_cons, List.map_cons,
        history_cons, ih]

/-- A hook that is not installed stays so until an installation is accepted. -/
theorem not_installed_after (steps : List Step) (h : switchboard.hook.installed = false)
    (hby : switchboard.installs steps = []) :
    (switchboard.after steps).hook.installed = false := by
  induction steps generalizing switchboard with
  | nil => exact h
  | cons s steps ih =>
    rw [installs, List.append_eq_nil_iff, Option.toList_eq_nil_iff] at hby
    rw [after_cons]
    apply ih _ _ hby.2
    rw [hook_step, Hook.installed_react, h, hby.1]
    simp

end Switchboard

open Switchboard (fresh after_append after_cons)

/-- **Idle steps leave no trace.** In a run of any steps, each step that is neither a refused
installation nor a cancellation of a hook that is not installed comes to the same if all such steps
are left out: the reply with what the hook did, and the hook and all permits after it. In particular
a cancellation does nothing if the hook was cancelled before, whether that failed or not, and no
installation was accepted since; and after a refused installation everything goes on as if it had
not been asked for, so later signals are noticed where they would have been. -/
theorem idle_steps_leave_no_trace (steps : List Step) :
    fresh.history steps = (fresh.trail steps).map Switchboard.outcome ∧
    fresh.history ((Switchboard.effective (fresh.trail steps)).map Prod.snd) =
      (Switchboard.effective (fresh.trail steps)).map Switchboard.outcome ∧
    (∀ before failure between again, steps = before ++ .cancel failure :: between →
      (fresh.after (before ++ [.cancel failure])).installs between = [] →
      (fresh.after steps).step (.cancel again) = (fresh.after steps, ⟨.done, []⟩)) ∧
    ∀ request, ((fresh.after steps).step (.install request)).2.answer.isRefused = true →
      ∀ later, fresh.after (steps ++ .install request :: later) = fresh.after (steps ++ later) := by
  refine ⟨fresh.history_eq_map_trail steps, fresh.history_effective steps, ?_, ?_⟩
  · rintro before failure between again rfl hby
    have hsplit : before ++ .cancel failure :: between =
        (before ++ [.cancel failure]) ++ between := by simp
    have hoff : (fresh.after (before ++ [.cancel failure])).hook.installed = false := by
      rw [Switchboard.hook_after_snoc, Hook.installed_react]
      rfl
    apply Switchboard.step_cancel_of_not_installed
    rw [hsplit, after_append]
    exact Switchboard.not_installed_after _ between hoff hby
  · intro request hrefused later
    obtain ⟨error, hstep⟩ := Switchboard.step_of_isRefused _ request hrefused
    rw [after_append, after_cons, hstep, after_append]

/-- Two steps that do something, with idle ones of every sort between them. -/
def mostlyIdle : List Step :=
  [.cancel none, .install none, .install (some 0), .install none, .install (some 1),
    .cancel (some (.ofString "busy")), .cancel (some (.ofString "busy")), .cancel none]

/-- Only the first installation and the cancellation that fails are left. -/
theorem idle_steps_leave_no_trace_mostlyIdle :
    (Switchboard.effective (fresh.trail mostlyIdle)).map Prod.snd =
        [.install (some 0), .cancel (some (.ofString "busy"))] ∧
      fresh.history [.install (some 0), .cancel (some (.ofString "busy"))] =
        (Switchboard.effective (fresh.trail mostlyIdle)).map Switchboard.outcome ∧
      (fresh.after mostlyIdle).step (.cancel none) = (fresh.after mostlyIdle, ⟨.done, []⟩) ∧
      ∀ later, fresh.after (mostlyIdle ++ .install none :: later) =
        fresh.after (mostlyIdle ++ later) := by
  have heffective : (Switchboard.effective (fresh.trail mostlyIdle)).map Prod.snd =
      [.install (some 0), .cancel (some (.ofString "busy"))] := by rfl
  obtain ⟨-, hhistory, hcancel, hrefused⟩ := idle_steps_leave_no_trace mostlyIdle
  rw [heffective] at hhistory
  refine ⟨heffective, hhistory, ?_, hrefused none rfl⟩
  exact hcancel [.cancel none, .install none, .install (some 0), .install none, .install (some 1)]
    (some (.ofString "busy")) [.cancel (some (.ofString "busy")), .cancel none] none rfl rfl

end MessageFeed.Signal
