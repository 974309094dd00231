import MessageFeed.Proofs.Shutdown.Permit

/-!
# Notices in quick succession

A notice that comes while the permit of an earlier one is stored adds nothing to it. So it can
happen that two notices wake two sleeping threads, and only one of them finds a permit when it
looks.

In a burst, notices are given and woken threads look, while nobody begins to wait and no time runs
out. When the notices of a burst were no more than the sleeping threads, and each woken thread has
looked, then no permit is left (`not_stored_of_burst`): if one were, no thread could be asleep, by
`Attended`, so all the sleeping threads would have left, each with the permit of a notice of its
own. Hence a notice has released a thread exactly if it found no permit stored.
-/

set_option autoImplicit false

namespace MessageFeed.Shutdown

/-- Notice is given, a thread wakes on its own, or a woken thread looks. -/
def Action.isBurst : Action → Bool
  | notify _ | rouse _ | recheck _ => true
  | enter _ _ | expire _ => false

/-- Whether a permit is stored after what an action came to. -/
def Outcome.leaves (outcome : Outcome) (stored : Bool) : Bool :=
  outcome.isNotice || stored && !outcome.isRelease

/-- How many notices find no permit stored, by what the actions come to from the time when one was
stored or not. -/
def storing (stored : Bool) : List Outcome → Nat
  | [] => 0
  | outcome :: outcomes =>
    (if outcome.isNotice && !stored then 1 else 0) + storing (outcome.leaves stored) outcomes

/-- At most all notices find no permit stored. -/
theorem storing_le (stored : Bool) (outcomes : List Outcome) :
    storing stored outcomes ≤ outcomes.countP Outcome.isNotice := by
  induction outcomes generalizing stored with
  | nil => exact Nat.le_refl 0
  | cons outcome outcomes ih =>
    have hrest := ih (outcome.leaves stored)
    rw [storing, List.countP_cons]
    by_cases hnotice : outcome.isNotice = true
    · rw [if_pos hnotice]
      split <;> omega
    · simp only [hnotice, Bool.false_and]
      omega

/-- All notices find no permit stored if and only if the first action is no notice over a stored
permit and all later notices find none stored. -/
theorem storing_cons_eq_iff (stored : Bool) (outcome : Outcome) (outcomes : List Outcome) :
    storing stored (outcome :: outcomes) = (outcome :: outcomes).countP Outcome.isNotice ↔
      (outcome.isNotice = true → stored = false) ∧
        storing (outcome.leaves stored) outcomes = outcomes.countP Outcome.isNotice := by
  have hle := storing_le (outcome.leaves stored) outcomes
  rw [storing, List.countP_cons]
  by_cases hnotice : outcome.isNotice = true
  · cases stored with
    | false =>
      simp only [hnotice, Bool.not_false, Bool.and_self, if_true, forall_const, true_and]
      omega
    | true =>
      simp only [hnotice, Bool.not_true, Bool.and_false, Bool.false_eq_true, if_true, if_false,
        forall_const, reduceCtorEq, false_and, iff_false]
      omega
  · simp [hnotice]

/-- Every notice finds no permit stored if and only if none is given while another is outstanding.
-/
theorem storing_eq_iff {stored : Bool} {made : List Outcome} (outcomes : List Outcome)
    (hmade : stored = true ↔ Outstanding Outcome.isNotice Outcome.isRelease made) :
    storing stored outcomes = outcomes.countP Outcome.isNotice ↔
      ∀ before notice after, outcomes = before ++ notice :: after → notice.isNotice = true →
        ¬ Outstanding Outcome.isNotice Outcome.isRelease (made ++ before) := by
  induction outcomes generalizing stored made with
  | nil => simp [storing]
  | cons outcome outcomes ih =>
    have hnext : outcome.leaves stored = true ↔
        Outstanding Outcome.isNotice Outcome.isRelease (made ++ [outcome]) := by
      rw [outstanding_snoc_iff, ← hmade]
      simp [Outcome.leaves]
    rw [storing_cons_eq_iff, ih hnext]
    constructor
    · rintro ⟨hhead, htail⟩ before notice after heq hnotice
      cases before with
      | nil =>
        obtain ⟨rfl, rfl⟩ := List.cons.inj heq
        rw [List.append_nil, ← hmade, hhead hnotice]
        exact Bool.false_ne_true
      | cons first before =>
        obtain ⟨rfl, rfl⟩ := List.cons.inj heq
        have hnot := htail before notice after rfl hnotice
        rwa [List.append_assoc] at hnot
    · intro hall
      constructor
      · intro hnotice
        have hnot := hall [] outcome outcomes rfl hnotice
        rw [List.append_nil, ← hmade] at hnot
        exact Bool.not_eq_true _ ▸ hnot
      · intro before notice after heq hnotice
        have hnot := hall (outcome :: before) notice after (by rw [heq]; rfl) hnotice
        rwa [List.append_assoc]

/-- If any notice is given where no permit is stored, the first one finds none. -/
theorem storing_pos {outcomes : List Outcome} (h : 1 ≤ outcomes.countP Outcome.isNotice) :
    1 ≤ storing false outcomes := by
  induction outcomes with
  | nil => exact h
  | cons outcome outcomes ih =>
    rw [storing]
    by_cases hnotice : outcome.isNotice = true
    · simp only [hnotice, Bool.not_false, Bool.and_self, if_true]
      omega
    · rw [List.countP_cons_of_neg hnotice] at h
      have hleaves : outcome.leaves false = false := by simp [Outcome.leaves, hnotice]
      rw [hleaves]
      exact Nat.le_trans (ih h) (Nat.le_add_left _ _)

/-! ## What a burst changes -/

/-- Nothing is counted of which nothing is true. -/
theorem countP_eq_zero_of_forall {α : Type} {p : α → Bool} {list : List α}
    (h : ∀ a ∈ list, p a = false) : list.countP p = 0 := by
  rw [List.countP_eq_zero]
  intro a hmem
  rw [h a hmem]
  exact Bool.false_ne_true

/-- A thread is away, asleep, or woken by a notice or on its own. -/
theorem length_eq_add (threads : List Status) :
    threads.length = threads.count .away + threads.countP Status.isAsleep +
      threads.countP Status.isNotified + threads.countP Status.isRoused := by
  induction threads with
  | nil => rfl
  | cons status threads ih =>
    rw [List.length_cons, ih, List.count_cons, List.countP_cons, List.countP_cons, List.countP_cons]
    cases status <;> simp [Status.isAsleep, Status.isNotified, Status.isRoused] <;> omega

namespace Room

variable {room next last : Room} {action : Action} {outcome : Outcome} {actions : List Action}
  {outcomes : List Outcome}

/-- Whether a permit is stored after an action is told by what the action came to. -/
theorem stored_of_goes (h : Goes room action (next, outcome)) :
    next.permit.stored = outcome.leaves room.permit.stored := by
  rw [Bool.eq_iff_iff, stored_iff_of_goes h]
  simp [Outcome.leaves]

/-- An action that releases a thread or leaves a permit takes that from the permit before it, or
from a notice that found none. -/
theorem release_add_stored (h : Goes room action (next, outcome)) :
    (if outcome.isRelease then 1 else 0) + next.permit.stored.toNat =
      (if outcome.isNotice && !room.permit.stored then 1 else 0) + room.permit.stored.toNat := by
  cases h with
  | unheard | heard =>
    cases hstored : room.permit.stored <;> simp [Outcome.isNotice, Outcome.isRelease]
  | woke => simp [Outcome.isNotice, Outcome.isRelease]
  | released _ _ stored | releasedLast _ _ stored =>
    simp [Outcome.isNotice, Outcome.isRelease, stored]
  | slept _ _ absent | gaveUp _ _ absent => simp [Outcome.isNotice, Outcome.isRelease, absent]

/-- The permits that were stored are those that were taken, and the one that is left. -/
theorem releases_add_stored (hrun : room.run? actions = some (last, outcomes)) :
    outcomes.countP Outcome.isRelease + last.permit.stored.toNat =
      storing room.permit.stored outcomes + room.permit.stored.toNat := by
  induction actions generalizing room outcomes with
  | nil =>
    cases hrun
    simp [storing]
  | cons action actions ih =>
    obtain ⟨next, outcome, later, hstep, hlater, rfl⟩ := run?_cons_iff.mp hrun
    have hfirst := release_add_stored (goes hstep)
    have hrest := ih hlater
    rw [stored_of_goes (goes hstep)] at hfirst hrest
    rw [List.countP_cons, storing]
    omega

/-- In a burst a thread goes away when it is released, and nobody comes. -/
theorem away_of_goes (h : Goes room action (next, outcome)) (hburst : action.isBurst = true) :
    next.threads.count .away =
      room.threads.count .away + if outcome.isRelease then 1 else 0 := by
  cases h with
  | unheard => rfl
  | @heard thread timed at_thread =>
    exact count_set_add Status.away _ thread _ (.notified timed) at_thread
  | @woke thread timed at_thread =>
    exact count_set_add Status.away _ thread _ (.roused timed) at_thread
  | @released _ thread _ _ looks at_thread =>
    have hset := count_set_add Status.away _ thread _ .away at_thread
    cases looks with
    | enter => cases hburst
    | _ => exact hset
  | @slept _ thread _ timed looks at_thread =>
    have hset := count_set_add Status.away _ thread _ (.asleep timed) at_thread
    cases looks with
    | enter => cases hburst
    | _ => exact hset
  | releasedLast | gaveUp => cases hburst

/-- Only a thread that wakes on its own is one more of those. -/
theorem roused_of_goes (h : Goes room action (next, outcome))
    (hrouse : ∀ thread, action ≠ .rouse thread) :
    next.threads.countP Status.isRoused ≤ room.threads.countP Status.isRoused := by
  cases h with
  | unheard => exact Nat.le_refl _
  | @heard thread timed at_thread =>
    exact Nat.le_of_eq (countP_set_add Status.isRoused _ thread _ (.notified timed) at_thread)
  | woke => exact absurd rfl (hrouse _)
  | @released _ thread _ _ _ at_thread | @releasedLast thread _ _ at_thread
  | @gaveUp thread _ _ at_thread =>
    exact Nat.le_of_add_right_le
      (Nat.le_of_eq (countP_set_add Status.isRoused _ thread _ .away at_thread))
  | @slept _ thread _ timed _ at_thread =>
    exact Nat.le_of_add_right_le
      (Nat.le_of_eq (countP_set_add Status.isRoused _ thread _ (.asleep timed) at_thread))

/-- No action adds a thread or takes one away. -/
theorem length_of_goes (h : Goes room action (next, outcome)) :
    next.threads.length = room.threads.length := by
  cases h with
  | unheard => rfl
  | _ => exact List.length_set

/-- In a burst the threads that are away are those that were and those that have been released. -/
theorem away_of_run? (hrun : room.run? actions = some (last, outcomes))
    (hburst : ∀ action ∈ actions, action.isBurst = true) :
    last.threads.count .away =
      room.threads.count .away + outcomes.countP Outcome.isRelease := by
  refine run_induction (P := fun current now => current.threads.count .away =
    room.threads.count .away + now.countP Outcome.isRelease) rfl ?_ hrun
  intro current now action later outcome hmem hcurrent hgoes
  rw [away_of_goes hgoes (hburst action hmem), hcurrent, List.countP_append, List.countP_singleton,
    Nat.add_assoc]

/-- No run of actions adds a thread or takes one away. -/
theorem length_threads_of_run? (hrun : room.run? actions = some (last, outcomes)) :
    last.threads.length = room.threads.length := by
  refine run_induction (P := fun current _ => current.threads.length = room.threads.length) rfl ?_
    hrun
  intro current now action later outcome _ hcurrent hgoes
  exact (length_of_goes hgoes).trans hcurrent

/-- As long as no thread wakes on its own, those that did and have not looked since become no more.
-/
theorem roused_of_run? (hrun : room.run? actions = some (last, outcomes))
    (hrouse : ∀ thread, .rouse thread ∉ actions) :
    last.threads.countP Status.isRoused ≤ room.threads.countP Status.isRoused := by
  refine run_induction (P := fun current _ => current.threads.countP Status.isRoused ≤
    room.threads.countP Status.isRoused) (Nat.le_refl _) ?_ hrun
  intro current now action later outcome hmem hcurrent hgoes
  refine Nat.le_trans (roused_of_goes hgoes ?_) hcurrent
  rintro thread rfl
  exact hrouse thread hmem

/-- Who is away stays away, as nobody begins to wait. -/
theorem away_of_away {thread : Nat} (hrun : room.run? actions = some (last, outcomes))
    (hburst : ∀ action ∈ actions, action.isBurst = true)
    (haway : room.threads[thread]? = some .away) : last.threads[thread]? = some .away := by
  refine run_induction (P := fun current _ => current.threads[thread]? = some .away) haway ?_ hrun
  intro current now action later outcome hmem hcurrent hgoes
  have hset : ∀ other status after, current.threads[other]? = some status → status ≠ .away →
      (current.threads.set other after)[thread]? = some .away := by
    intro other status after hother hne
    have hdiffer : other ≠ thread := by
      rintro rfl
      rw [hcurrent] at hother
      cases hother
      exact hne rfl
    rw [List.getElem?_set_ne hdiffer, hcurrent]
  have hburst := hburst action hmem
  cases hgoes with
  | unheard => exact hcurrent
  | heard at_thread | woke at_thread => exact hset _ _ _ at_thread (by simp)
  | released looks at_thread | slept looks at_thread =>
    cases looks with
    | enter => cases hburst
    | _ => exact hset _ _ _ at_thread (by simp)
  | releasedLast | gaveUp => cases hburst

/-! ## Bursts -/

/-- These actions are a burst: notices are given, and each thread which they woke has looked, as has
each that woke on its own in the meantime. -/
structure Burst (room : Room) (actions : List Action) (last : Room) (outcomes : List Outcome) :
    Prop where
  run : room.run? actions = some (last, outcomes)
  only : ∀ action ∈ actions, action.isBurst = true
  settled : ∀ status ∈ last.threads, status.isNotified = false
  roused : (∃ thread, .rouse thread ∈ actions) → ∀ status ∈ last.threads, status.isRoused = false

/-- After a burst every thread that a notice woke has looked. -/
theorem Burst.notified_eq_zero (h : room.Burst actions last outcomes) :
    last.threads.countP Status.isNotified = 0 :=
  countP_eq_zero_of_forall h.settled

/-- After a burst no more threads than before have woken on their own and not looked since. -/
theorem Burst.roused_le (h : room.Burst actions last outcomes) :
    last.threads.countP Status.isRoused ≤ room.threads.countP Status.isRoused := by
  by_cases hrouse : ∃ thread, .rouse thread ∈ actions
  · rw [countP_eq_zero_of_forall (h.roused hrouse)]
    exact Nat.zero_le _
  · exact roused_of_run? h.run (not_exists.mp hrouse)

/-- No permit is left by the notices of a burst, if there are no more of them than sleeping threads.
-/
theorem not_stored_of_burst (hattended : room.Attended) (h : room.Burst actions last outcomes)
    (habsent : room.permit.stored = false)
    (hle : outcomes.countP Outcome.isNotice ≤ room.threads.countP Status.isAsleep) :
    last.permit.stored = false := by
  by_contra hne
  have hstored : last.permit.stored = true := by simpa using hne
  have hasleep : last.threads.countP Status.isAsleep = 0 := by
    rw [List.countP_eq_zero]
    intro status hmem hasleep
    obtain ⟨thread, hthread⟩ := List.mem_iff_getElem?.mp hmem
    cases status with
    | asleep timed =>
      obtain ⟨other, limited, hother⟩ := hattended.run h.run hstored thread timed hthread
      have hnot := h.settled _ (List.mem_of_getElem? hother)
      cases hnot
    | _ => cases hasleep
  -- So all the threads that slept at the beginning are away, each with a permit of its own.
  have hnotified := h.notified_eq_zero
  have hroused := h.roused_le
  have hfirst := length_eq_add room.threads
  have hlast := length_eq_add last.threads
  have hlength := length_threads_of_run? h.run
  have haway := away_of_run? h.run h.only
  have hpermits := releases_add_stored h.run
  have hstoring := storing_le room.permit.stored outcomes
  rw [hstored, habsent, Bool.toNat_true, Bool.toNat_false] at hpermits
  rw [habsent] at hstoring
  omega

end Room

/-- **A notice releases a thread if it finds no permit stored.** In any state with no permit stored,
let notices be given, at least one and no more than there are sleeping threads, and let the woken
threads look. Then no permit is left, and as many threads have returned as notices found no permit
stored; if nobody was woken before, these threads are of the sleeping ones, and the others sleep
again. They are as many as the notices if and only if no notice was given while another was
outstanding. -/
theorem releases_of_burst (n : Nat) (earlier actions : List Action) (room last : Room)
    (past outcomes : List Outcome) (hreached : (Room.quiet n).run? earlier = some (room, past))
    (habsent : room.permit.stored = false) (hburst : room.Burst actions last outcomes)
    (hpos : 1 ≤ outcomes.countP Outcome.isNotice)
    (hle : outcomes.countP Outcome.isNotice ≤ room.threads.countP Status.isAsleep) :
    last.permit.stored = false ∧
      (∀ thread : Nat,
        room.threads[thread]? = some .away → last.threads[thread]? = some .away) ∧
      last.threads.count .away = room.threads.count .away + storing false outcomes ∧
      ((∀ status ∈ room.threads, status.isNotified = false ∧ status.isRoused = false) →
        last.threads.countP Status.isAsleep + storing false outcomes =
          room.threads.countP Status.isAsleep) ∧
      1 ≤ storing false outcomes ∧
      storing false outcomes ≤ outcomes.countP Outcome.isNotice ∧
      (storing false outcomes = outcomes.countP Outcome.isNotice ↔
        ∀ before notice after, outcomes = before ++ notice :: after → notice.isNotice = true →
          ¬ Outstanding Outcome.isNotice Outcome.isRelease before) := by
  have hattended := Room.attended_of_run? hreached
  have hnone := Room.not_stored_of_burst hattended hburst habsent hle
  have hpermits := Room.releases_add_stored hburst.run
  rw [hnone, habsent, Bool.toNat_false] at hpermits
  have haway := Room.away_of_run? hburst.run hburst.only
  have hstart : false = true ↔ Outstanding Outcome.isNotice Outcome.isRelease [] :=
    iff_of_false Bool.false_ne_true not_outstanding_nil
  refine ⟨hnone, fun thread => Room.away_of_away hburst.run hburst.only, by omega, ?_,
    storing_pos hpos, storing_le false outcomes, storing_eq_iff outcomes hstart⟩
  intro hunwoken
  have hnotified : room.threads.countP Status.isNotified = 0 :=
    countP_eq_zero_of_forall fun status hmem => (hunwoken status hmem).1
  have hroused : room.threads.countP Status.isRoused = 0 :=
    countP_eq_zero_of_forall fun status hmem => (hunwoken status hmem).2
  have hnotifiedLast := hburst.notified_eq_zero
  have hrousedLast := hburst.roused_le
  have hfirst := length_eq_add room.threads
  have hlast := length_eq_add last.threads
  have hlength := Room.length_threads_of_run? hburst.run
  omega

/-- The second of three notices comes before thread 0, which the first one woke, has looked. Thread
1 is faster to look, and thread 0 sleeps again. -/
theorem releases_of_burst_overlapping :
    (Room.quiet 3).run? [.enter 0 false, .enter 1 false, .enter 2 false] =
        some (⟨.absent, [.asleep false, .asleep false, .asleep false]⟩,
          [.slept 0, .slept 1, .slept 2]) ∧
      (⟨.absent, [.asleep false, .asleep false, .asleep false]⟩ : Room).Burst
        [.notify (some 0), .notify (some 1), .recheck 1, .recheck 0, .notify (some 2), .recheck 2]
        ⟨.absent, [.asleep false, .away, .away]⟩
        [.noticed, .noticed, .released 1, .slept 0, .noticed, .released 2] ∧
      storing false [.noticed, .noticed, .released 1, .slept 0, .noticed, .released 2] = 2 ∧
      [Status.asleep false, .away, .away].countP Status.isAsleep + 2 = 3 ∧
      ¬ ∀ before notice after,
        [Outcome.noticed, .noticed, .released 1, .slept 0, .noticed, .released 2] =
          before ++ notice :: after → notice.isNotice = true →
        ¬ Outstanding Outcome.isNotice Outcome.isRelease before := by
  have hburst : (⟨.absent, [.asleep false, .asleep false, .asleep false]⟩ : Room).Burst
      [.notify (some 0), .notify (some 1), .recheck 1, .recheck 0, .notify (some 2), .recheck 2]
      ⟨.absent, [.asleep false, .away, .away]⟩
      [.noticed, .noticed, .released 1, .slept 0, .noticed, .released 2] :=
    ⟨rfl, by decide, by decide, by simp⟩
  obtain ⟨-, -, -, hasleep, -, -, hiff⟩ := releases_of_burst 3
    [.enter 0 false, .enter 1 false, .enter 2 false] _ _ _ _ _ rfl rfl hburst (by decide)
    (by decide)
  exact ⟨rfl, hburst, rfl, hasleep (by decide), fun hall => absurd (hiff.mpr hall) (by decide)⟩

/-- Two threads sleep and no permit is stored. Two notices are given, each wakes one of the threads,
and both threads look; but only one of them has returned then. -/
theorem one_released_by_two_notices :
    (Room.quiet 2).run? [.enter 0 false, .enter 1 false] =
        some (⟨.absent, [.asleep false, .asleep false]⟩, [.slept 0, .slept 1]) ∧
      (⟨.absent, [.asleep false, .asleep false]⟩ : Room).Burst
        [.notify (some 0), .notify (some 1), .recheck 0, .recheck 1]
        ⟨.absent, [.away, .asleep false]⟩ [.noticed, .noticed, .released 0, .slept 1] ∧
      [Outcome.noticed, .noticed, .released 0, .slept 1].countP Outcome.isNotice = 2 ∧
      [Status.asleep false, .asleep false].countP Status.isAsleep = 2 ∧
      [Status.away, .asleep false].count .away = 1 :=
  ⟨rfl, ⟨rfl, by decide, by decide, by simp⟩, rfl, rfl, rfl⟩

end MessageFeed.Shutdown
