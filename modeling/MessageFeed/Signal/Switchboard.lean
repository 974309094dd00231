import MessageFeed.Shutdown.Permit
import MessageFeed.Signal.Hook

/-!
# A hook among its permits

The switchboard is a hook with the permits of all slots. Its steps are what can happen to it from
outside: the hook is installed or cancelled, its source completes the armed waits, the queued
completions are handled, and notice is given or a permit polled. Each step has a reply: an answer
and the events of the hook.
-/

set_option autoImplicit false

namespace MessageFeed.Signal

open Shutdown (Permit)

/-- A hook and the permits of all slots. -/
structure Switchboard where
  hook : Hook
  permit : Slot → Permit

/-- Something that happens to a switchboard. -/
inductive Step where
  /-- The hook is installed for a slot, or for none. -/
  | install (slot : Option Slot)
  /-- The hook is cancelled; if a reason is given, the source fails to call its waits off. -/
  | cancel (failure : Option Bytes)
  /-- A signal with this number comes, and all armed waits complete with it. -/
  | deliver (number : Int)
  /-- The source fails for this reason, and all armed waits complete with that. -/
  | fail (reason : Bytes)
  /-- The queued completions are handled. -/
  | run
  /-- Notice is given at a slot, not by the hook. -/
  | notify (slot : Slot)
  /-- The permit of a slot is taken if it is stored. -/
  | poll (slot : Slot)
  deriving DecidableEq, Repr

/-- What a step comes back with. -/
inductive Answer where
  | done
  | refused (error : InstallError)
  | polled (took : Bool)
  deriving DecidableEq, Repr

/-- The answer to a step and what the hook did in it. -/
structure Reply where
  answer : Answer
  events : List Event
  deriving DecidableEq, Repr

/-- The log entries of a step. -/
def Reply.log (reply : Reply) : List Log.Entry :=
  reply.events.filterMap Event.entry?

namespace Switchboard

/-- A switchboard whose hook has never been installed and whose slots hold no permit. -/
def fresh : Switchboard := ⟨.fresh, fun _ => .absent⟩

/-- Replaces the permit of a slot. -/
def setPermit (switchboard : Switchboard) (slot : Slot) (permit : Permit) : Switchboard :=
  { switchboard with permit := fun s => if s = slot then permit else switchboard.permit s }

/-- Gives notice at a slot. -/
def notify (switchboard : Switchboard) (slot : Slot) : Switchboard :=
  switchboard.setPermit slot (switchboard.permit slot).notify

/-- What an event of the hook does to the permits. -/
def absorb (switchboard : Switchboard) : Event → Switchboard
  | .notified (some slot) => switchboard.notify slot
  | _ => switchboard

/-- Goes on with a changed hook, whose events reach the permits. -/
def settle (switchboard : Switchboard) (change : Hook × List Event) : Switchboard × Reply :=
  (change.2.foldl absorb { switchboard with hook := change.1 }, ⟨.done, change.2⟩)

/-- Makes a step. -/
def step (switchboard : Switchboard) : Step → Switchboard × Reply
  | .install slot =>
    match switchboard.hook.install slot with
    | .error e => (switchboard, ⟨.refused e, []⟩)
    | .ok change => switchboard.settle change
  | .cancel failure => switchboard.settle (switchboard.hook.cancel failure)
  | .deliver number => switchboard.settle (switchboard.hook.complete (.signal number), [])
  | .fail reason => switchboard.settle (switchboard.hook.complete (.failed reason), [])
  | .run => switchboard.settle switchboard.hook.drain
  | .notify slot => (switchboard.notify slot, ⟨.done, []⟩)
  | .poll slot =>
    let taken := (switchboard.permit slot).take
    (switchboard.setPermit slot taken.2, ⟨.polled taken.1, []⟩)

/-- Makes steps one after another: the reply to each of them and the switchboard after it. -/
def history (switchboard : Switchboard) : List Step → List (Reply × Switchboard)
  | [] => []
  | s :: steps =>
    let (next, reply) := switchboard.step s
    (reply, next) :: next.history steps

/-- The switchboard after some steps. -/
def after (switchboard : Switchboard) (steps : List Step) : Switchboard :=
  steps.foldl (fun s => fun step => (s.step step).1) switchboard

end Switchboard

end MessageFeed.Signal
