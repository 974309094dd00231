import MessageFeed.Proofs.Shutdown.Actions
import MessageFeed.Shutdown.Rounds

/-!
# What a move does to the rounds

There are seven ways for a move to go (`goes`): a waiting thread takes an action in the room, a
released one counts itself, and the host gives notice, sees the count, finds a permit or none, or
ends its round. The guard of each move is part of the way it goes. What every move keeps holds after
every run (`run_induction`).
-/

set_option autoImplicit false

namespace MessageFeed.Shutdown

/-- Which action a waiting thread of this stage takes in the room with a move. -/
inductive Waits : Move → (thread : Nat) → Stage → Action → Prop where
  | arrive {thread : Nat} : Waits (.arrive thread) thread .fresh (.enter thread false)
  | rouse {thread : Nat} : Waits (.rouse thread) thread .waiting (.rouse thread)
  | recheck {thread : Nat} : Waits (.recheck thread) thread .waiting (.recheck thread)

namespace Rounds

/-- The rounds after a move, by the way in which it goes. -/
inductive Goes (rounds : Rounds) : Move → Rounds → Prop where
  | waited {move : Move} {thread : Nat} {stage : Stage} {action : Action} {later : Room}
      {outcome : Outcome} (waits : Waits move thread stage action)
      (at_thread : rounds.stages[thread]? = some stage)
      (goes : Room.Goes rounds.room action (later, outcome)) :
      Goes rounds move { rounds with
        room := later
        stages := rounds.stages.set thread
          (if outcome = Outcome.released thread then .released else .waiting) }
  | tallied {thread : Nat} (at_thread : rounds.stages[thread]? = some .released) :
      Goes rounds (.tally thread) { rounds with stages := rounds.stages.set thread .counted }
  | noticed {chosen : Option Nat} {later : Room} {outcome : Outcome}
      (turn : rounds.turn = .notice) (unfinished : rounds.round ≤ rounds.host)
      (goes : Room.Goes rounds.room (.notify chosen) (later, outcome)) :
      Goes rounds (.notify chosen) { rounds with room := later, turn := .count }
  | saw (turn : rounds.turn = .count) (enough : rounds.round ≤ rounds.counted) :
      Goes rounds .see { rounds with turn := .poll rounds.counted }
  | found {seen : Nat} {later : Room} (turn : rounds.turn = .poll seen)
      (goes : Room.Goes rounds.room (.enter rounds.host true) (later, .released rounds.host)) :
      Goes rounds .poll ({ rounds with room := later }.report seen true)
  | missed {seen : Nat} {later : Room} {outcome : Outcome} (turn : rounds.turn = .poll seen)
      (goes : Room.Goes rounds.room (.enter rounds.host true) (later, outcome))
      (nothing : outcome ≠ .released rounds.host) :
      Goes rounds .poll { rounds with room := later, turn := .listen seen }
  | ended {seen : Nat} {later : Room} {outcome : Outcome} (turn : rounds.turn = .listen seen)
      (goes : Room.Goes rounds.room (.expire rounds.host) (later, outcome)) :
      Goes rounds .expire
        ({ rounds with room := later }.report seen
          (decide (outcome = Outcome.released rounds.host)))

/-- A thread that takes an action in its stage moves on as the action comes out. -/
theorem goes_waiter? {rounds next : Rounds} {move : Move} {thread : Nat} {stage : Stage}
    {action : Action} (waits : Waits move thread stage action)
    (hstage : rounds.stages[thread]? = some stage)
    (h : rounds.waiter? thread action = some next) : Goes rounds move next := by
  obtain ⟨⟨later, outcome⟩, hstep, rfl⟩ := Option.map_eq_some_iff.mp h
  exact .waited waits hstage (Room.goes hstep)

/-- The rounds go in one of these ways with every move that is possible. -/
theorem goes {rounds next : Rounds} {move : Move} (h : rounds.step? move = some next) :
    Goes rounds move next := by
  cases move with
  | arrive thread =>
    simp only [step?] at h
    split at h
    · rename_i hstage
      exact goes_waiter? .arrive hstage h
    · cases h
  | rouse thread =>
    simp only [step?] at h
    split at h
    · rename_i hstage
      exact goes_waiter? .rouse hstage h
    · cases h
  | recheck thread =>
    simp only [step?] at h
    split at h
    · rename_i hstage
      exact goes_waiter? .recheck hstage h
    · cases h
  | tally thread =>
    simp only [step?] at h
    split at h
    · rename_i hstage
      cases h
      exact .tallied hstage
    · cases h
  | notify chosen =>
    simp only [step?] at h
    split at h
    · rename_i hguard
      obtain ⟨⟨later, outcome⟩, hstep, rfl⟩ := Option.map_eq_some_iff.mp h
      exact .noticed hguard.1 hguard.2 (Room.goes hstep)
    · cases h
  | see =>
    simp only [step?] at h
    split at h
    · rename_i hguard
      cases h
      exact .saw hguard.1 hguard.2
    · cases h
  | poll =>
    simp only [step?] at h
    split at h
    · rename_i seen hturn
      obtain ⟨⟨later, outcome⟩, hstep, rfl⟩ := Option.map_eq_some_iff.mp h
      by_cases hfound : outcome = .released rounds.host
      · subst hfound
        simp only [if_true]
        exact .found hturn (Room.goes hstep)
      · simp only [if_neg hfound]
        exact .missed hturn (Room.goes hstep) hfound
    · cases h
  | expire =>
    simp only [step?] at h
    split at h
    · rename_i seen hturn
      obtain ⟨⟨later, outcome⟩, hstep, rfl⟩ := Option.map_eq_some_iff.mp h
      exact .ended hturn (Room.goes hstep)
    · cases h

/-- What every move keeps holds after every run. -/
theorem run_induction {P : Rounds → Prop}
    (hstep : ∀ current move next, P current → Goes current move next → P next)
    {rounds last : Rounds} {moves : List Move} (hstart : P rounds)
    (hrun : rounds.run? moves = some last) : P last := by
  induction moves generalizing rounds with
  | nil =>
    cases hrun
    exact hstart
  | cons move moves ih =>
    obtain ⟨middle, hfirst, hlater⟩ := Option.bind_eq_some_iff.mp hrun
    exact ih (hstep rounds move middle hstart (goes hfirst)) hlater

end Rounds

end MessageFeed.Shutdown
