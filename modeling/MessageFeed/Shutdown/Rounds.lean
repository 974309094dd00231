import MessageFeed.Shutdown.Room

/-!
# Releasing threads one by one

A host releases waiting threads one at a time. Each of `n` threads waits once, without limit, and
then counts itself. In each of `n` rounds the host gives notice, waits until at least as many
threads have counted themselves as there were rounds, and looks whether a permit is left over. It
reports the count it saw and what it found.

The threads and the host act in any order that the room allows. `orderly` is one such order, in
which every thread sleeps before the first round.
-/

set_option autoImplicit false

namespace MessageFeed.Shutdown

/-- How far a waiting thread has come. -/
inductive Stage where
  /-- It has not begun to wait. -/
  | fresh
  /-- It waits. -/
  | waiting
  /-- Its wait is over. -/
  | released
  /-- It has counted itself. -/
  | counted
  deriving DecidableEq, Repr

/-- What the host does next in its round. -/
inductive Turn where
  /-- It gives notice. -/
  | notice
  /-- It waits for the count. -/
  | count
  /-- It has seen this count and looks for a permit. -/
  | poll (seen : Nat)
  /-- It has seen this count and found no permit, and its time is not yet up. -/
  | listen (seen : Nat)
  deriving DecidableEq, Repr

/-- The room, in which the host is the last thread, how far each of the other threads has come, the
host's turn, and what the host reported of the rounds that are over. -/
structure Rounds where
  room : Room
  stages : List Stage
  turn : Turn
  reports : List (Nat × Bool)
  deriving DecidableEq, Repr

/-- What one of the threads does in its turn. -/
inductive Move where
  /-- A thread begins to wait. -/
  | arrive (thread : Nat)
  /-- A waiting thread wakes on its own. -/
  | rouse (thread : Nat)
  /-- A woken thread looks again. -/
  | recheck (thread : Nat)
  /-- A released thread counts itself. -/
  | tally (thread : Nat)
  /-- The host gives notice. -/
  | notify (chosen : Option Nat)
  /-- The host sees a high enough count. -/
  | see
  /-- The host looks for a permit. -/
  | poll
  /-- The host's time is up. -/
  | expire
  deriving DecidableEq, Repr

namespace Rounds

/-- Before the first round. -/
def start (n : Nat) : Rounds :=
  ⟨.quiet (n + 1), List.replicate n .fresh, .notice, []⟩

/-- The number of threads that are to be released, which is also the host's own position. -/
def host (rounds : Rounds) : Nat :=
  rounds.stages.length

/-- The number of threads that have counted themselves. -/
def counted (rounds : Rounds) : Nat :=
  rounds.stages.count .counted

/-- The number of the round that goes on. -/
def round (rounds : Rounds) : Nat :=
  rounds.reports.length + 1

/-- A waiting thread takes an action of the room, and goes on if its wait is over. -/
def waiter? (rounds : Rounds) (thread : Nat) (action : Action) : Option Rounds :=
  (rounds.room.step? action).map fun (room, outcome) =>
    { rounds with
      room
      stages := rounds.stages.set thread
        (if outcome = Outcome.released thread then .released else .waiting) }

/-- The host reports what it saw and found, which ends the round. -/
def report (rounds : Rounds) (seen : Nat) (found : Bool) : Rounds :=
  { rounds with turn := .notice, reports := rounds.reports ++ [(seen, found)] }

/-- Makes a move, if it is possible. -/
def step? (rounds : Rounds) : Move → Option Rounds
  | .arrive thread =>
    if rounds.stages[thread]? = some .fresh then rounds.waiter? thread (.enter thread false)
    else none
  | .rouse thread =>
    if rounds.stages[thread]? = some .waiting then rounds.waiter? thread (.rouse thread)
    else none
  | .recheck thread =>
    if rounds.stages[thread]? = some .waiting then rounds.waiter? thread (.recheck thread)
    else none
  | .tally thread =>
    if rounds.stages[thread]? = some .released then
      some { rounds with stages := rounds.stages.set thread .counted }
    else none
  | .notify chosen =>
    if rounds.turn = .notice ∧ rounds.round ≤ rounds.host then
      (rounds.room.step? (.notify chosen)).map fun (room, _) =>
        { rounds with room, turn := .count }
    else none
  | .see =>
    if rounds.turn = .count ∧ rounds.round ≤ rounds.counted then
      some { rounds with turn := .poll rounds.counted }
    else none
  | .poll =>
    match rounds.turn with
    | .poll seen =>
      (rounds.room.step? (.enter rounds.host true)).map fun (room, outcome) =>
        if outcome = Outcome.released rounds.host then { rounds with room }.report seen true
        else { rounds with room, turn := .listen seen }
    | _ => none
  | .expire =>
    match rounds.turn with
    | .listen seen =>
      (rounds.room.step? (.expire rounds.host)).map fun (room, outcome) =>
        { rounds with room }.report seen (decide (outcome = Outcome.released rounds.host))
    | _ => none

/-- Makes moves one after another, if all are possible. -/
def run? (rounds : Rounds) : List Move → Option Rounds
  | [] => some rounds
  | move :: moves => do (← rounds.step? move).run? moves

/-- An order of moves in which all threads fall asleep first and are then released one by one. -/
def orderly (n : Nat) : List Move :=
  (List.range n).map .arrive ++
    (List.range n).flatMap fun thread =>
      [.notify (some thread), .recheck thread, .tally thread, .see, .poll, .expire]

end Rounds

end MessageFeed.Shutdown
