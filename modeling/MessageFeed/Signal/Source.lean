import MessageFeed.Bytes.Basic

/-!
# Signal sources

A source of termination signals is waited on. Each armed wait completes once: with a signal, because
it was called off, or because the source failed. Completions stand in a queue until they are
handled, the oldest first.
-/

set_option autoImplicit false

namespace MessageFeed.Signal

/-- How a wait for a signal ended. -/
inductive Completion where
  /-- A signal with this number came. -/
  | signal (number : Int)
  /-- The wait was called off. -/
  | aborted
  /-- The source failed, for this reason. -/
  | failed (reason : Bytes)
  deriving DecidableEq, Repr

/-- A source of signals: how many waits are armed, and the completions that have not been handled,
the oldest first. -/
structure Source where
  armed : Nat
  ready : List Completion
  deriving DecidableEq, Repr

namespace Source

/-- A source on which nobody waits. -/
def idle : Source := ⟨0, []⟩

/-- Arms one more wait. -/
def arm (source : Source) : Source :=
  { source with armed := source.armed + 1 }

/-- Completes all armed waits alike. -/
def complete (source : Source) (completion : Completion) : Source :=
  ⟨0, source.ready ++ List.replicate source.armed completion⟩

end Source

end MessageFeed.Signal
