import MessageFeed.Signal.Switchboard

/-!
# The two modes of a hook

To whoever uses it, a hook is idle, or it is active for a slot. A machine with these two states says
what each step should do: an idle hook becomes active when it is installed, an active one becomes
idle when it is cancelled, and a signal that comes while it is active is reported once and noticed
once, at its slot. The machine reports a signal when it comes, where a hook waits until its queue is
handled.
-/

set_option autoImplicit false

namespace MessageFeed.Signal

/-- What a hook is to whoever uses it. -/
inductive Mode where
  /-- No signal is waited for. -/
  | idle
  /-- Signals are waited for, and noticed at this slot. -/
  | active (slot : Slot)
  deriving DecidableEq, Repr

/-- The report of one signal, with the notice of it. -/
def report (number : Int) (slot : Slot) : List Event :=
  [.logged (Log.info (.ofString "Received termination signal, initiating graceful shutdown...")),
   .logged (Log.debug (.ofString "Signal number: " ++ Bytes.signedDecimal number)),
   .notified (some slot)]

namespace Mode

/-- What a step does to a mode, and what is seen of it. -/
def step : Mode → Step → Mode × List Event
  | idle, .install (some slot) =>
    (active slot, [.logged (Log.info (.ofString "Signal handler installed."))])
  | active _, .cancel _ => (idle, [])
  | active slot, .deliver number => (active slot, report number slot)
  | mode, _ => (mode, [])

/-- The mode after some steps. -/
def after (mode : Mode) (steps : List Step) : Mode :=
  steps.foldl (fun m => fun s => (m.step s).1) mode

/-- What is seen of a mode in some steps, in order. -/
def events (mode : Mode) : List Step → List Event
  | [] => []
  | s :: steps => (mode.step s).2 ++ (mode.step s).1.events steps

end Mode

/-- The mode that a hook presents. -/
def Hook.mode (hook : Hook) : Mode :=
  match hook.installed, hook.target with
  | true, some slot => .active slot
  | _, _ => .idle

/-- A hook that is not installed presents itself as idle. -/
theorem Hook.mode_of_not_installed {hook : Hook} (h : hook.installed = false) :
    hook.mode = .idle := by
  simp [mode, h]

/-- A hook presents itself as active for a slot if and only if it is installed and the slot is its
target. -/
theorem Hook.mode_eq_active_iff (hook : Hook) (slot : Slot) :
    hook.mode = .active slot ↔ hook.installed = true ∧ hook.target = some slot := by
  unfold mode
  split
  · rename_i hinstalled htarget
    simp [hinstalled, htarget]
  · rename_i hnot
    constructor
    · intro h
      cases h
    · intro h
      exact absurd h.2 (hnot slot h.1)

end MessageFeed.Signal
