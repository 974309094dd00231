import MessageFeed.Shutdown.Permit

/-!
# Threads that wait for the permit

Any number of threads share one permit. A thread that finds no permit falls asleep, and a notice
wakes one sleeping thread, if there is one, to look again. Threads take turns: each action here is
what one thread does while all others stand still, and threads act in any order.

A thread that was woken does not hold the permit. Until it looks, another thread may come in and
take the permit first; then the woken thread falls asleep again. A sleeping thread may also wake on
its own, and one that waits for a limited time may run out of it, asleep or woken; it looks a last
time before it gives up.
-/

set_option autoImplicit false

namespace MessageFeed.Shutdown

/-- Where a thread is. `timed` says whether its wait has a limit. -/
inductive Status where
  /-- It is not waiting. -/
  | away
  /-- It is asleep. -/
  | asleep (timed : Bool)
  /-- A notice woke it, and it has not looked since. -/
  | notified (timed : Bool)
  /-- It woke on its own, and it has not looked since. -/
  | roused (timed : Bool)
  deriving DecidableEq, Repr

/-- Whether a thread is asleep. -/
def Status.isAsleep : Status → Bool
  | asleep _ => true
  | _ => false

/-- A permit and the threads that share it, which are known by their positions. -/
structure Room where
  permit : Permit
  threads : List Status
  deriving DecidableEq, Repr

/-- What a thread does in its turn. -/
inductive Action where
  /-- A thread gives notice, and the chosen sleeping thread is woken. Nobody is chosen only if
  nobody is asleep. -/
  | notify (chosen : Option Nat)
  /-- A thread begins to wait. -/
  | enter (thread : Nat) (timed : Bool)
  /-- A thread wakes on its own. -/
  | rouse (thread : Nat)
  /-- A woken thread looks again. -/
  | recheck (thread : Nat)
  /-- A thread runs out of time and looks a last time. -/
  | expire (thread : Nat)
  deriving DecidableEq, Repr

/-- What an action comes to. -/
inductive Outcome where
  /-- Notice was given. -/
  | noticed
  /-- A thread found no permit and sleeps. -/
  | slept (thread : Nat)
  /-- A thread woke on its own. -/
  | woke (thread : Nat)
  /-- The wait of a thread ended with the permit. -/
  | released (thread : Nat)
  /-- The wait of a thread ended without the permit. -/
  | gaveUp (thread : Nat)
  deriving DecidableEq, Repr

namespace Room

/-- A room of `n` threads none of which waits, with no permit. -/
def quiet (n : Nat) : Room := ⟨.absent, List.replicate n .away⟩

/-- Puts a thread elsewhere. -/
def place (room : Room) (thread : Nat) (status : Status) : Room :=
  { room with threads := room.threads.set thread status }

/-- Ends the wait of a thread with the permit, which must be stored. -/
def release (room : Room) (thread : Nat) : Room × Outcome :=
  ({ room with permit := room.permit.take.2 }.place thread .away, .released thread)

/-- A thread looks for the permit, to leave with it or to sleep. -/
def look (room : Room) (thread : Nat) (timed : Bool) : Room × Outcome :=
  if room.permit.stored then room.release thread
  else (room.place thread (.asleep timed), .slept thread)

/-- A thread looks for the permit and leaves with it or without it. -/
def lookLast (room : Room) (thread : Nat) : Room × Outcome :=
  if room.permit.stored then room.release thread
  else (room.place thread .away, .gaveUp thread)

/-- Takes an action, if it is possible. -/
def step? (room : Room) : Action → Option (Room × Outcome)
  | .notify none =>
    if room.threads.any Status.isAsleep then none
    else some ({ room with permit := room.permit.notify }, .noticed)
  | .notify (some thread) =>
    match room.threads[thread]? with
    | some (.asleep timed) =>
      some ({ room with permit := room.permit.notify }.place thread (.notified timed), .noticed)
    | _ => none
  | .enter thread timed =>
    match room.threads[thread]? with
    | some .away => some (room.look thread timed)
    | _ => none
  | .rouse thread =>
    match room.threads[thread]? with
    | some (.asleep timed) => some (room.place thread (.roused timed), .woke thread)
    | _ => none
  | .recheck thread =>
    match room.threads[thread]? with
    | some (.notified timed) | some (.roused timed) => some (room.look thread timed)
    | _ => none
  | .expire thread =>
    match room.threads[thread]? with
    | some (.asleep true) | some (.notified true) | some (.roused true) =>
      some (room.lookLast thread)
    | _ => none

/-- Takes actions one after another, if all are possible: the room they lead to and what each of
them comes to. -/
def run? (room : Room) : List Action → Option (Room × List Outcome)
  | [] => some (room, [])
  | action :: actions => do
    let (next, outcome) ← room.step? action
    let (last, outcomes) ← next.run? actions
    return (last, outcome :: outcomes)

end Room

end MessageFeed.Shutdown
