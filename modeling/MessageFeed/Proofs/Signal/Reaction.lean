import MessageFeed.Proofs.Signal.Waits
import MessageFeed.Signal.Mode

/-!
# What a step can do to a hook

There are seven ways for a hook to take a step (`reaction`): it ignores it, lets itself be
installed, has its waits called off or fails to, has them completed by a signal or a failure, or
handles its queue. What a step keeps or changes is proved along these, not along the steps.
-/

set_option autoImplicit false

namespace MessageFeed.Signal

namespace Hook

/-- The slot that a step installs a hook for, if the hook lets itself be installed. -/
def installedBy (hook : Hook) : Step → Option Slot
  | .install (some slot) => if hook.installed then none else some slot
  | _ => none

/-- Whether a step is of no consequence to a hook: it is refused, there is nothing to cancel, or it
is about the permits. -/
def ignores (hook : Hook) : Step → Bool
  | .install none => true
  | .install (some _) => hook.installed
  | .cancel _ => !hook.installed
  | .notify _ => true
  | .poll _ => true
  | _ => false

/-- The hook after a step, and what it does in it, by the way in which it takes the step. -/
inductive Reaction (hook : Hook) : Step → Hook × List Event → Prop where
  | ignored (s : Step) (h : hook.ignores s = true) : Reaction hook s (hook, [])
  | installed (slot : Slot) (h : hook.installed = false) :
      Reaction hook (.install (some slot))
        ({ hook with installed := true, target := some slot }.arm,
          [.logged (Log.info (.ofString "Signal handler installed."))])
  | cancelled (h : hook.installed = true) :
      Reaction hook (.cancel none) ({ hook with installed := false }.complete .aborted, [])
  | leftArmed (reason : Bytes) (h : hook.installed = true) :
      Reaction hook (.cancel (some reason)) ({ hook with installed := false },
        [.logged (Log.warn (.ofString "Failed to cancel signal wait: " ++ reason))])
  | delivered (number : Int) :
      Reaction hook (.deliver number) (hook.complete (.signal number), [])
  | failed (reason : Bytes) : Reaction hook (.fail reason) (hook.complete (.failed reason), [])
  | handled : Reaction hook .run hook.drained

variable (hook : Hook) (s : Step)

/-- A hook reacts to every step in one of these ways. -/
theorem reaction : Reaction hook s (hook.react s) := by
  cases s with
  | install request =>
    cases request with
    | none => exact .ignored _ rfl
    | some slot =>
      cases hinstalled : hook.installed with
      | false => simpa [react, install, hinstalled] using Reaction.installed slot hinstalled
      | true =>
        simpa [react, install, hinstalled] using
          Reaction.ignored (.install (some slot)) (by simp [ignores, hinstalled])
  | cancel failure =>
    cases hinstalled : hook.installed with
    | false =>
      simpa [react, cancel, hinstalled] using
        Reaction.ignored (.cancel failure) (by simp [ignores, hinstalled])
    | true =>
      cases failure with
      | none => simpa [react, cancel, hinstalled] using Reaction.cancelled hinstalled
      | some reason =>
        simpa [react, cancel, hinstalled] using Reaction.leftArmed reason hinstalled
  | deliver number => exact .delivered number
  | fail reason => exact .failed reason
  | run => exact .handled
  | notify slot => exact .ignored _ rfl
  | poll slot => exact .ignored _ rfl

/-- A step installs a hook if and only if it is an installation with a slot and the hook is not
installed. -/
theorem installedBy_eq_some_iff (slot : Slot) :
    hook.installedBy s = some slot ↔ s = .install (some slot) ∧ hook.installed = false := by
  cases s with
  | install request =>
    cases request with
    | none => simp [installedBy]
    | some slot' =>
      cases hinstalled : hook.installed <;> simp [installedBy, hinstalled]
  | _ => simp [installedBy]

variable {hook s}

/-- A step that a hook ignores does not install it. -/
theorem installedBy_of_ignores (h : hook.ignores s = true) : hook.installedBy s = none := by
  cases hby : hook.installedBy s with
  | none => rfl
  | some slot =>
    obtain ⟨rfl, hoff⟩ := (hook.installedBy_eq_some_iff s slot).mp hby
    simp [ignores, hoff] at h

/-- A hook ignores being cancelled only if it is not installed. -/
theorem not_installed_of_ignores_cancel (h : hook.ignores s = true) (hcancel : s.isCancel = true) :
    hook.installed = false := by
  cases s <;> simp_all [ignores, Step.isCancel]

/-- Only an installation changes the slot of a hook. -/
theorem target_react : (hook.react s).1.target = (hook.installedBy s).or hook.target := by
  have h := hook.reaction s
  generalize hook.react s = r at h
  cases h with
  | ignored _ h => rw [installedBy_of_ignores h, Option.none_or]
  | installed slot h => simp [installedBy, h, arm]
  | _ => rfl

/-- A hook is installed by an installation and until it is cancelled, whether its source calls the
waits off or not. -/
theorem installed_react :
    (hook.react s).1.installed =
      (!s.isCancel && (hook.installed || (hook.installedBy s).isSome)) := by
  have h := hook.reaction s
  generalize hook.react s = r at h
  cases h with
  | ignored _ h =>
    rw [installedBy_of_ignores h]
    cases hcancel : s.isCancel with
    | false => simp
    | true => simp [not_installed_of_ignores_cancel h hcancel]
  | installed slot h => simp [installedBy, h, arm, Step.isCancel]
  | _ => simp [installedBy, Step.isCancel, complete, drained]

/-- Completing waits with a signal passes their chains on; completing them otherwise ends them. -/
theorem chains_complete (hook : Hook) (completion : Completion) :
    (hook.complete completion).chains =
      hook.source.signals + if completion.isSignal then hook.source.armed else 0 := by
  have harmed : (hook.complete completion).source.armed = 0 := rfl
  rw [chains, harmed, complete, Source.signals_complete, Nat.zero_add]

/-- Completing the waits with a signal keeps their chains: each becomes a signal in the queue. -/
theorem chains_complete_signal (hook : Hook) (number : Int) :
    (hook.complete (.signal number)).chains = hook.chains := by
  rw [chains_complete, chains, Nat.add_comm]
  rfl

/-- Completing the waits makes no chain. -/
theorem chains_complete_le (hook : Hook) (completion : Completion) :
    (hook.complete completion).chains ≤ hook.chains := by
  rw [chains_complete, chains]
  split <;> omega

/-- Handling the queue passes the chains of its signals on if the hook is installed. -/
theorem chains_drained (hook : Hook) :
    hook.drained.1.chains =
      hook.source.armed + if hook.installed then hook.source.signals else 0 := by
  simp [drained, chains, Source.signals]

/-- Only an installation adds to the chains. -/
theorem chains_react_le (hby : hook.installedBy s = none) :
    (hook.react s).1.chains ≤ hook.chains := by
  have h := hook.reaction s
  generalize hook.react s = r at h
  cases h with
  | ignored _ _ => exact Nat.le_refl _
  | installed slot h => simp [installedBy, h] at hby
  | cancelled _ => exact chains_complete_le _ _
  | leftArmed _ _ => exact Nat.le_refl _
  | delivered _ => exact chains_complete_le _ _
  | failed _ => exact chains_complete_le _ _
  | handled =>
    rw [chains_drained, chains]
    split <;> omega

end Hook

end MessageFeed.Signal
