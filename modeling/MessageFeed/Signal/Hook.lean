import MessageFeed.Fault
import MessageFeed.Log
import MessageFeed.Signal.Source

/-!
# The signal hook

A hook stands between a source of termination signals and the permits that stop the program. While
it is installed for a slot it keeps a wait armed on the source, and for each signal that comes it
gives notice at the slot. Handling a signal arms the next wait if the hook is still installed.

What a hook does to the world around it is a list of events: the log entries it writes and the
slots at which it gives notice.
-/

set_option autoImplicit false

namespace MessageFeed.Signal

/-- The place of a permit. -/
abbrev Slot := Nat

/-- Something a hook does to the world around it. -/
inductive Event where
  /-- It writes a log entry. -/
  | logged (entry : Log.Entry)
  /-- It gives notice at its slot, if it has one. -/
  | notified (slot : Option Slot)
  deriving DecidableEq, Repr

/-- The log entry of an event that writes one. -/
def Event.entry? : Event → Option Log.Entry
  | logged entry => some entry
  | notified _ => none

/-- A hook: whether it is installed, the slot it was last installed for, and its source. -/
structure Hook where
  installed : Bool
  target : Option Slot
  source : Source
  deriving DecidableEq, Repr

/-- Why a hook does not let itself be installed. -/
inductive InstallError where
  /-- There is no slot to install it for. -/
  | missingSlot
  /-- It is installed already. -/
  | alreadyInstalled
  deriving DecidableEq, Repr

/-- The fault that a refused installation is reported as. -/
def InstallError.fault : InstallError → Fault
  | missingSlot => .illegalArgument (.ofString "SignalHook: shutdown signal is null")
  | alreadyInstalled => .illegalState (.ofString "SignalHook: handler already installed")

namespace Hook

/-- A hook that has never been installed. -/
def fresh : Hook := ⟨false, none, .idle⟩

/-- What is logged when a hook is made. -/
def creationLog : List Log.Entry :=
  [Log.debug (.ofString "SignalHook created for SIGINT/SIGTERM.")]

/-- Arms one more wait on the source. -/
def arm (hook : Hook) : Hook :=
  { hook with source := hook.source.arm }

/-- Completes all armed waits alike. -/
def complete (hook : Hook) (completion : Completion) : Hook :=
  { hook with source := hook.source.complete completion }

/-- Installs a hook for a slot. A missing slot is found before an installed hook, and a refused
installation changes nothing. -/
def install (hook : Hook) : Option Slot → Except InstallError (Hook × List Event)
  | none => .error .missingSlot
  | some slot =>
    if hook.installed then .error .alreadyInstalled
    else
      .ok ({ hook with installed := true, target := some slot }.arm,
        [.logged (Log.info (.ofString "Signal handler installed."))])

/-- Calls the armed waits off. The hook counts as not installed from then on, also if the source
fails to call the waits off, for the reason given, and leaves them armed. A hook that is not
installed does not ask the source. -/
def cancel (hook : Hook) (failure : Option Bytes) : Hook × List Event :=
  if hook.installed then
    match failure with
    | none => ({ hook with installed := false }.complete .aborted, [])
    | some reason =>
      ({ hook with installed := false },
        [.logged (Log.warn (.ofString "Failed to cancel signal wait: " ++ reason))])
  else (hook, [])

/-- Handles one completion, which is no longer in the queue. -/
def handle (hook : Hook) : Completion → Hook × List Event
  | .aborted => (hook, [])
  | .failed reason =>
    (hook, [.logged (Log.error (.ofString "Signal wait error: " ++ reason))])
  | .signal number =>
    (if hook.installed then hook.arm else hook,
      [.logged (Log.info (.ofString
        "Received termination signal, initiating graceful shutdown...")),
       .logged (Log.debug (.ofString "Signal number: " ++ Bytes.signedDecimal number)),
       .notified hook.target])

/-- Handling a completion leaves the queue as it is, since a wait armed now has not completed. -/
theorem ready_handle (hook : Hook) (completion : Completion) :
    (hook.handle completion).1.source.ready = hook.source.ready := by
  cases completion with
  | aborted => rfl
  | failed reason => rfl
  | signal number =>
    simp only [handle]
    split <;> rfl

/-- Handles completions, the oldest first, until none is left. -/
def drain (hook : Hook) : Hook × List Event :=
  match _h : hook.source.ready with
  | [] => (hook, [])
  | completion :: rest =>
    let handled := { hook with source := { hook.source with ready := rest } }.handle completion
    let drained := handled.1.drain
    (drained.1, handled.2 ++ drained.2)
termination_by hook.source.ready.length
decreasing_by
  rw [ready_handle, _h]
  exact Nat.lt_succ_self rest.length

end Hook

end MessageFeed.Signal
