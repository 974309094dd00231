import MessageFeed.Signal.Switchboard

/-!
# What a step does to the hook

Draining a queue arms waits, but a wait armed now has not completed, so nothing joins the queue
while it is drained, and the hook stays installed or not as it is. Hence draining comes to one
assignment (`drain_eq_drained`): the queue is empty, and if the hook is installed, one wait is armed
for each signal that was queued. What it does to the world is what each completion does, in order.

With that a step is a function of the hook alone (`hook_step`, `events_step`): the permits do not
act back on it.
-/

set_option autoImplicit false

namespace MessageFeed.Signal

namespace Completion

/-- Whether a wait ended because a signal came. -/
def isSignal : Completion → Bool
  | signal _ => true
  | aborted => false
  | failed _ => false

/-- What handling a completion does to the world, for the slot that the hook was last installed
for. -/
def events (target : Option Slot) : Completion → List Event
  | signal number =>
    [.logged (Log.info (.ofString "Received termination signal, initiating graceful shutdown...")),
     .logged (Log.debug (.ofString "Signal number: " ++ Bytes.signedDecimal number)),
     .notified target]
  | aborted => []
  | failed reason => [.logged (Log.error (.ofString "Signal wait error: " ++ reason))]

end Completion

namespace Source

/-- The number of signals in the queue of a source. -/
def signals (source : Source) : Nat :=
  source.ready.countP Completion.isSignal

end Source

namespace Hook

/-- A hook whose queue has been drained, in one step, and what draining it does. -/
def drained (hook : Hook) : Hook × List Event :=
  ({ hook with
      source := ⟨hook.source.armed + (if hook.installed then hook.source.signals else 0), []⟩ },
    hook.source.ready.flatMap (Completion.events hook.target))

/-- Handling a completion arms a wait if it is a signal and the hook is installed, and changes
nothing else. -/
theorem handle_eq (hook : Hook) (completion : Completion) :
    hook.handle completion =
      (if hook.installed && completion.isSignal then hook.arm else hook,
        completion.events hook.target) := by
  cases completion with
  | signal number => simp [handle, Completion.isSignal, Completion.events]
  | aborted => simp [handle, Completion.isSignal, Completion.events]
  | failed reason => simp [handle, Completion.isSignal, Completion.events]

/-- **Draining a queue, closed form.** -/
theorem drain_eq_drained (hook : Hook) : hook.drain = hook.drained := by
  obtain ⟨installed, target, armed, ready⟩ := hook
  induction ready generalizing armed with
  | nil =>
    unfold drain
    simp [drained, Source.signals]
  | cons completion rest ih =>
    unfold drain
    simp only [handle_eq, Hook.arm, Source.arm]
    -- One completion is handled; the rest is drained with the wait that it may have armed.
    cases installed <;> cases hsignal : completion.isSignal
    all_goals simp [ih, drained, Source.signals, hsignal]
    omega

/-- What a step does to a hook, and what the hook does in it. -/
def react (hook : Hook) : Step → Hook × List Event
  | .install slot =>
    match hook.install slot with
    | .ok change => change
    | .error _ => (hook, [])
  | .cancel failure => hook.cancel failure
  | .deliver number => (hook.complete (.signal number), [])
  | .fail reason => (hook.complete (.failed reason), [])
  | .run => hook.drained
  | .notify _ => (hook, [])
  | .poll _ => (hook, [])

end Hook

namespace Switchboard

/-- Events reach the permits and not the hook. -/
theorem hook_foldl_absorb (switchboard : Switchboard) (events : List Event) :
    (events.foldl absorb switchboard).hook = switchboard.hook := by
  induction events generalizing switchboard with
  | nil => rfl
  | cons event events ih =>
    rw [List.foldl_cons, ih]
    cases event with
    | logged entry => rfl
    | notified slot => cases slot <;> rfl

/-- What a step does to the hook depends on the hook alone. -/
theorem hook_step (switchboard : Switchboard) (s : Step) :
    (switchboard.step s).1.hook = (switchboard.hook.react s).1 := by
  cases s with
  | install slot =>
    simp only [step, Hook.react]
    split
    · rename_i h
      simp [h]
    · rename_i h
      simp [h, settle, hook_foldl_absorb]
  | cancel failure => simp only [step, settle, hook_foldl_absorb, Hook.react]
  | deliver number => simp only [step, settle, hook_foldl_absorb, Hook.react]
  | fail reason => simp only [step, settle, hook_foldl_absorb, Hook.react]
  | run => simp only [step, settle, hook_foldl_absorb, Hook.react, Hook.drain_eq_drained]
  | notify slot => rfl
  | poll slot => rfl

/-- What the hook does in a step depends on the hook alone. -/
theorem events_step (switchboard : Switchboard) (s : Step) :
    (switchboard.step s).2.events = (switchboard.hook.react s).2 := by
  cases s with
  | install slot =>
    simp only [step, Hook.react]
    split
    · rename_i h
      simp [h]
    · rename_i h
      simp [h, settle]
  | cancel failure => rfl
  | deliver number => rfl
  | fail reason => rfl
  | run => simp only [step, settle, Hook.react, Hook.drain_eq_drained]
  | notify slot => rfl
  | poll slot => rfl

/-- Some steps are made, and then more. -/
@[simp] theorem after_append (switchboard : Switchboard) (steps more : List Step) :
    switchboard.after (steps ++ more) = (switchboard.after steps).after more :=
  List.foldl_append

/-- No step changes nothing. -/
@[simp] theorem after_nil (switchboard : Switchboard) : switchboard.after [] = switchboard := rfl

/-- Steps are made from the first one on. -/
@[simp] theorem after_cons (switchboard : Switchboard) (s : Step) (steps : List Step) :
    switchboard.after (s :: steps) = (switchboard.step s).1.after steps := rfl

/-- The hook after some steps depends on the hook before them alone. -/
theorem hook_after (switchboard : Switchboard) (steps : List Step) :
    (switchboard.after steps).hook =
      steps.foldl (fun hook s => (hook.react s).1) switchboard.hook := by
  induction steps generalizing switchboard with
  | nil => rfl
  | cons s steps ih => rw [after_cons, ih, hook_step, List.foldl_cons]

end Switchboard

end MessageFeed.Signal
