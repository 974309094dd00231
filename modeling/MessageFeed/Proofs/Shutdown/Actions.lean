import MessageFeed.Shutdown.Room
import Mathlib.Data.List.Induction

/-!
# What an action does to a room

There are seven ways for an action to go (`goes`): a notice finds nobody asleep or wakes a thread, a
thread wakes on its own, and a thread that looks for the permit takes it or not, where a look that
is the last one ends the wait in either case. What an action keeps or changes is proved along these.
A run is taken apart from its end (`run?_snoc_iff`), and a property of rooms and outcomes that every
action keeps holds at the end of every run (`run_induction`).
-/

set_option autoImplicit false

namespace MessageFeed.Shutdown

/-- Putting one element in another's place moves one count, at most, from the old to the new. -/
theorem countP_set_add {α : Type} (p : α → Bool) (list : List α) (i : Nat) (old new : α)
    (h : list[i]? = some old) :
    (list.set i new).countP p + (if p old then 1 else 0) =
      list.countP p + if p new then 1 else 0 := by
  obtain ⟨hlt, hold⟩ := List.getElem?_eq_some_iff.mp h
  rw [List.countP_set hlt, hold]
  by_cases hp : p old = true
  · have hpos : 0 < list.countP p :=
      List.countP_pos_iff.mpr ⟨old, List.mem_of_getElem? h, hp⟩
    rw [if_pos hp]
    omega
  · rw [if_neg hp]
    omega

/-- Setting an item of a list takes its old value out of the counts and puts its new value in. -/
theorem count_set_add {α : Type} [DecidableEq α] (a : α) (list : List α) (i : Nat) (old new : α)
    (h : list[i]? = some old) :
    (list.set i new).count a + (if old = a then 1 else 0) =
      list.count a + if new = a then 1 else 0 := by
  simpa [List.count] using countP_set_add (· == a) list i old new h

/-- Whether notice was given. -/
def Outcome.isNotice : Outcome → Bool
  | noticed => true
  | _ => false

/-- Whether a wait ended with the permit. -/
def Outcome.isRelease : Outcome → Bool
  | released _ => true
  | _ => false

/-- Whether a notice woke a thread that has not looked since. -/
def Status.isNotified : Status → Bool
  | notified _ => true
  | _ => false

/-- Whether a thread woke on its own and has not looked since. -/
def Status.isRoused : Status → Bool
  | roused _ => true
  | _ => false

/-- Whether a thread waits for a limited time. -/
def Status.isTimed : Status → Bool
  | away => false
  | asleep timed => timed
  | notified timed => timed
  | roused timed => timed

/-- With this action a thread of this status looks for the permit, to leave with it or to sleep. -/
inductive Looks : Action → (thread : Nat) → Status → (timed : Bool) → Prop where
  | enter {thread : Nat} {timed : Bool} : Looks (.enter thread timed) thread .away timed
  | notified {thread : Nat} {timed : Bool} : Looks (.recheck thread) thread (.notified timed) timed
  | roused {thread : Nat} {timed : Bool} : Looks (.recheck thread) thread (.roused timed) timed

namespace Room

/-- The room after an action, and what the action comes to, by the way in which it goes. -/
inductive Goes (room : Room) : Action → Room × Outcome → Prop where
  | unheard (silent : room.threads.any Status.isAsleep = false) :
      Goes room (.notify none) ({ room with permit := room.permit.notify }, .noticed)
  | heard {thread : Nat} {timed : Bool} (at_thread : room.threads[thread]? = some (.asleep timed)) :
      Goes room (.notify (some thread))
        ({ room with permit := room.permit.notify }.place thread (.notified timed), .noticed)
  | woke {thread : Nat} {timed : Bool} (at_thread : room.threads[thread]? = some (.asleep timed)) :
      Goes room (.rouse thread) (room.place thread (.roused timed), .woke thread)
  | released {action : Action} {thread : Nat} {status : Status} {timed : Bool}
      (looks : Looks action thread status timed) (at_thread : room.threads[thread]? = some status)
      (stored : room.permit.stored = true) :
      Goes room action
        ({ room with permit := room.permit.take.2 }.place thread .away, .released thread)
  | slept {action : Action} {thread : Nat} {status : Status} {timed : Bool}
      (looks : Looks action thread status timed) (at_thread : room.threads[thread]? = some status)
      (absent : room.permit.stored = false) :
      Goes room action (room.place thread (.asleep timed), .slept thread)
  | releasedLast {thread : Nat} {status : Status} (timed : status.isTimed = true)
      (at_thread : room.threads[thread]? = some status) (stored : room.permit.stored = true) :
      Goes room (.expire thread)
        ({ room with permit := room.permit.take.2 }.place thread .away, .released thread)
  | gaveUp {thread : Nat} {status : Status} (timed : status.isTimed = true)
      (at_thread : room.threads[thread]? = some status) (absent : room.permit.stored = false) :
      Goes room (.expire thread) (room.place thread .away, .gaveUp thread)

variable {room : Room} {action : Action}

/-- Where a thread is put has nothing to do with the permit. -/
@[simp] theorem permit_place (room : Room) (thread : Nat) (status : Status) :
    (room.place thread status).permit = room.permit := rfl

/-- Putting a thread elsewhere changes its status alone. -/
@[simp] theorem threads_place (room : Room) (thread : Nat) (status : Status) :
    (room.place thread status).threads = room.threads.set thread status := rfl

/-- Notice leaves a permit. -/
@[simp] theorem stored_notify (permit : Permit) : permit.notify.stored = true := rfl

/-- No permit is left when it is taken. -/
@[simp] theorem stored_take (permit : Permit) : permit.take.2.stored = false := rfl

/-- A thread that looks for the permit leaves with it or sleeps. -/
theorem goes_look {thread : Nat} {status : Status} {timed : Bool}
    (looks : Looks action thread status timed) (h : room.threads[thread]? = some status) :
    Goes room action (room.look thread timed) := by
  unfold look
  by_cases hstored : room.permit.stored = true
  · rw [if_pos hstored]
    exact .released looks h hstored
  · rw [if_neg hstored]
    exact .slept looks h (Bool.not_eq_true _ ▸ hstored)

/-- A thread that looks for the last time leaves with the permit or without it. -/
theorem goes_lookLast {thread : Nat} {status : Status} (timed : status.isTimed = true)
    (h : room.threads[thread]? = some status) :
    Goes room (.expire thread) (room.lookLast thread) := by
  unfold lookLast
  by_cases hstored : room.permit.stored = true
  · rw [if_pos hstored]
    exact .releasedLast timed h hstored
  · rw [if_neg hstored]
    exact .gaveUp timed h (Bool.not_eq_true _ ▸ hstored)

/-- A room goes in one of these ways with every action that is possible. -/
theorem goes {r : Room × Outcome} (h : room.step? action = some r) : Goes room action r := by
  cases action with
  | notify chosen =>
    cases chosen with
    | none =>
      simp only [step?] at h
      split at h
      · cases h
      · rename_i hsilent
        cases h
        exact .unheard (Bool.not_eq_true _ ▸ hsilent)
    | some thread =>
      simp only [step?] at h
      split at h
      · rename_i timed hthread
        cases h
        exact .heard hthread
      · cases h
  | enter thread timed =>
    simp only [step?] at h
    split at h
    · rename_i hthread
      cases h
      exact goes_look .enter hthread
    · cases h
  | rouse thread =>
    simp only [step?] at h
    split at h
    · rename_i timed hthread
      cases h
      exact .woke hthread
    · cases h
  | recheck thread =>
    simp only [step?] at h
    split at h
    · rename_i timed hthread
      cases h
      exact goes_look .notified hthread
    · rename_i timed hthread
      cases h
      exact goes_look .roused hthread
    · cases h
  | expire thread =>
    simp only [step?] at h
    split at h
    · rename_i hthread
      cases h
      exact goes_lookLast rfl hthread
    · rename_i hthread
      cases h
      exact goes_lookLast rfl hthread
    · rename_i hthread
      cases h
      exact goes_lookLast rfl hthread
    · cases h

/-! ## Runs -/

/-- Actions are taken from the first one on. -/
theorem run?_cons_iff {actions : List Action} {last : Room} {outcomes : List Outcome} :
    room.run? (action :: actions) = some (last, outcomes) ↔
      ∃ next outcome later, room.step? action = some (next, outcome) ∧
        next.run? actions = some (last, later) ∧ outcomes = outcome :: later := by
  cases hstep : room.step? action with
  | none => simp [run?, hstep]
  | some first =>
    obtain ⟨next, outcome⟩ := first
    cases hrest : next.run? actions with
    | none => simp [run?, hstep, hrest]
    | some rest =>
      obtain ⟨final, later⟩ := rest
      have hrun : room.run? (action :: actions) = some (final, outcome :: later) := by
        simp [run?, hstep, hrest]
      rw [hrun]
      constructor
      · intro h
        cases h
        exact ⟨next, outcome, later, rfl, hrest, rfl⟩
      · rintro ⟨next', outcome', later', hfirst, hlater, rfl⟩
        cases hfirst
        rw [hrest] at hlater
        cases hlater
        rfl

/-- Some actions are taken, and then more of them. -/
theorem run?_append_iff {actions more : List Action} {last : Room} {outcomes : List Outcome} :
    room.run? (actions ++ more) = some (last, outcomes) ↔
      ∃ middle before after, room.run? actions = some (middle, before) ∧
        middle.run? more = some (last, after) ∧ outcomes = before ++ after := by
  induction actions generalizing room outcomes with
  | nil => simp [run?, eq_comm]
  | cons action actions ih =>
    rw [List.cons_append, run?_cons_iff]
    constructor
    · rintro ⟨next, outcome, later, hstep, hlater, rfl⟩
      obtain ⟨middle, before, after, hbefore, hafter, rfl⟩ := ih.mp hlater
      exact ⟨middle, outcome :: before, after,
        run?_cons_iff.mpr ⟨next, outcome, before, hstep, hbefore, rfl⟩, hafter, rfl⟩
    · rintro ⟨middle, before, after, hbefore, hafter, rfl⟩
      obtain ⟨next, outcome, now, hstep, hnow, rfl⟩ := run?_cons_iff.mp hbefore
      exact ⟨next, outcome, now ++ after, hstep, ih.mpr ⟨middle, now, after, hnow, hafter, rfl⟩,
        rfl⟩

/-- The last action is taken in the room that those before it left. -/
theorem run?_snoc_iff {actions : List Action} {last : Room} {outcomes : List Outcome} :
    room.run? (actions ++ [action]) = some (last, outcomes) ↔
      ∃ middle before outcome, room.run? actions = some (middle, before) ∧
        middle.step? action = some (last, outcome) ∧ outcomes = before ++ [outcome] := by
  rw [run?_append_iff]
  constructor
  · rintro ⟨middle, before, after, hbefore, hafter, rfl⟩
    obtain ⟨next, outcome, later, hstep, hlater, rfl⟩ := run?_cons_iff.mp hafter
    cases hlater
    exact ⟨middle, before, outcome, hbefore, hstep, rfl⟩
  · rintro ⟨middle, before, outcome, hbefore, hstep, rfl⟩
    exact ⟨middle, before, [outcome], hbefore,
      run?_cons_iff.mpr ⟨last, outcome, [], hstep, rfl, rfl⟩, rfl⟩

/-- Each action has its outcome. -/
theorem length_of_run? {actions : List Action} {last : Room} {outcomes : List Outcome}
    (h : room.run? actions = some (last, outcomes)) : outcomes.length = actions.length := by
  induction actions using List.reverseRecOn generalizing last outcomes with
  | nil =>
    cases h
    rfl
  | append_singleton actions action ih =>
    obtain ⟨middle, before, outcome, hbefore, -, rfl⟩ := run?_snoc_iff.mp h
    rw [List.length_append, List.length_append, ih hbefore]
    rfl

/-- A run can be stopped after any of its outcomes, and goes on from there. -/
theorem exists_run?_of_append {actions : List Action} {last : Room} {before after : List Outcome}
    (h : room.run? actions = some (last, before ++ after)) :
    ∃ first rest middle, actions = first ++ rest ∧ room.run? first = some (middle, before) ∧
      middle.run? rest = some (last, after) := by
  have hsplit := List.take_append_drop before.length actions
  rw [← hsplit] at h
  obtain ⟨middle, now, later, hnow, hlater, houtcomes⟩ := run?_append_iff.mp h
  have hlength := length_of_run? h
  have hfirst := length_of_run? hnow
  rw [hsplit, List.length_append] at hlength
  rw [List.length_take, Nat.min_eq_left (by omega)] at hfirst
  obtain ⟨rfl, rfl⟩ := List.append_inj houtcomes hfirst.symm
  exact ⟨_, _, middle, hsplit.symm, hnow, hlater⟩

/-- What holds at the beginning, and what each action keeps, holds at the end of a run. -/
theorem run_induction {P : Room → List Outcome → Prop} {actions : List Action} {last : Room}
    {outcomes : List Outcome} (hstart : P room [])
    (hstep : ∀ current outcomes action next outcome, action ∈ actions → P current outcomes →
      Goes current action (next, outcome) → P next (outcomes ++ [outcome]))
    (h : room.run? actions = some (last, outcomes)) : P last outcomes := by
  induction actions using List.reverseRecOn generalizing last outcomes with
  | nil =>
    cases h
    exact hstart
  | append_singleton actions action ih =>
    obtain ⟨middle, before, outcome, hbefore, hlast, rfl⟩ := run?_snoc_iff.mp h
    have hmiddle : P middle before := by
      refine ih ?_ hbefore
      intro current outcomes action next outcome hmem
      exact hstep current outcomes action next outcome (List.mem_append_left _ hmem)
    exact hstep middle before action last outcome (List.mem_append_right _ List.mem_cons_self)
      hmiddle (goes hlast)

end Room

end MessageFeed.Shutdown
