import MessageFeed.Proofs.Shutdown.Rounds

/-!
# Every round comes to its end

The host is never stuck (`Steady.exists_step`). If it waits for the count, then the notice of its
round has not come to a counted thread yet: a thread was released and can count itself, or the
permit is stored. In the second case a thread is left that is not counted. It can begin to wait if
it has not begun, or look if it was woken, and if it sleeps then another thread was woken, because
no notice is lost on the sleeping ones.

Nor does it go on for ever: each move uses up some of the work that is left (`Rounds.left`), unless
a thread wakes on its own.
-/

set_option autoImplicit false

namespace MessageFeed.Shutdown

/-- Whether a thread was woken and has not looked since. -/
def Status.isWoken : Status → Bool
  | away | asleep _ => false
  | notified _ | roused _ => true

/-- How many threads an action wakes, at most. -/
def Action.wakes : Action → Nat
  | notify _ | rouse _ => 1
  | _ => 0

/-- How many woken threads look again with an action. -/
def Action.rechecks : Action → Nat
  | recheck _ => 1
  | _ => 0

/-- A thread moves, and not because it wakes on its own. -/
def Move.isAdvance : Move → Bool
  | arrive _ | recheck _ | tally _ => true
  | _ => false

/-- A thread wakes on its own. -/
def Move.isRouse : Move → Bool
  | rouse _ => true
  | _ => false

/-! ## Some move is always possible -/

namespace Rounds

variable {rounds next : Rounds}

/-- A thread can move if the room lets it act. -/
theorem exists_waiter? (thread : Nat) {action : Action} {later : Room × Outcome}
    (h : rounds.room.step? action = some later) :
    ∃ next, rounds.waiter? thread action = some next := by
  unfold waiter?
  rw [h]
  exact ⟨_, rfl⟩

/-- A fresh thread can arrive. -/
theorem exists_arrive {thread : Nat} (hstage : rounds.stages[thread]? = some .fresh)
    (hstatus : rounds.room.threads[thread]? = some .away) :
    ∃ next, rounds.step? (.arrive thread) = some next := by
  have hstep : rounds.room.step? (.enter thread false) = some (rounds.room.look thread false) := by
    simp only [Room.step?, hstatus]
  obtain ⟨next, hnext⟩ := exists_waiter? thread hstep
  exact ⟨next, by simp only [step?, hstage, if_true, hnext]⟩

/-- A waiting thread that was woken can look. -/
theorem exists_recheck {thread : Nat} {status : Status}
    (hstage : rounds.stages[thread]? = some .waiting)
    (hstatus : rounds.room.threads[thread]? = some status) (hwoken : status.isWoken = true) :
    ∃ next, rounds.step? (.recheck thread) = some next := by
  have hstep : ∃ later, rounds.room.step? (.recheck thread) = some later := by
    cases status with
    | away | asleep => cases hwoken
    | notified timed | roused timed =>
      exact ⟨rounds.room.look thread timed, by simp only [Room.step?, hstatus]⟩
  obtain ⟨later, hlater⟩ := hstep
  obtain ⟨next, hnext⟩ := exists_waiter? thread hlater
  exact ⟨next, by simp only [step?, hstage, if_true, hnext]⟩

/-- A thread that was woken by a notice waits, as the host is not notified by itself. -/
theorem Steady.waiting_of_notified (h : Steady rounds) {thread : Nat} {timed : Bool}
    (hstatus : rounds.room.threads[thread]? = some (.notified timed)) :
    rounds.stages[thread]? = some .waiting := by
  have hne : thread ≠ rounds.host := by
    rintro rfl
    have hhost := h.host_at
    rw [hstatus] at hhost
    cases hturn : rounds.turn <;> simp [hturn, Turn.status] at hhost
  have hlt : thread < rounds.stages.length := by
    obtain ⟨hlt, -⟩ := List.getElem?_eq_some_iff.mp hstatus
    have hlength := h.length_threads
    unfold host at hne hlength
    omega
  have hstage : rounds.stages[thread]? = some rounds.stages[thread] :=
    List.getElem?_eq_getElem hlt
  obtain ⟨status, hnow, hfits⟩ := h.fits thread _ hstage
  rw [hstatus] at hnow
  cases hnow
  cases hcase : rounds.stages[thread] with
  | waiting => rw [hstage, hcase]
  | _ =>
    rw [hcase] at hfits
    cases hfits

/-- A released thread can count itself. -/
theorem exists_tally {thread : Nat} (hstage : rounds.stages[thread]? = some .released) :
    ∃ next, rounds.step? (.tally thread) = some next :=
  ⟨_, by simp only [step?, hstage, if_true]; rfl⟩

/-- While a permit is stored and a thread is not counted, a thread can move on, but if that one
sleeps it is another one. -/
theorem Steady.exists_advance_of_stored (h : Steady rounds)
    (hstored : rounds.room.permit.stored = true) {thread : Nat} {stage : Stage}
    (hstage : rounds.stages[thread]? = some stage) (hne : stage ≠ .counted) :
    ∃ move next, move.isAdvance = true ∧ rounds.step? move = some next := by
  obtain ⟨status, hstatus, hfits⟩ := h.fits thread stage hstage
  cases stage with
  | fresh =>
    obtain rfl : status = .away := hfits
    obtain ⟨next, hnext⟩ := exists_arrive hstage hstatus
    exact ⟨.arrive thread, next, rfl, hnext⟩
  | waiting =>
    rcases hfits with rfl | rfl | rfl
    · obtain ⟨other, timed, hother⟩ := h.attended hstored thread false hstatus
      obtain ⟨next, hnext⟩ := exists_recheck (h.waiting_of_notified hother) hother rfl
      exact ⟨.recheck other, next, rfl, hnext⟩
    · obtain ⟨next, hnext⟩ := exists_recheck hstage hstatus rfl
      exact ⟨.recheck thread, next, rfl, hnext⟩
    · obtain ⟨next, hnext⟩ := exists_recheck hstage hstatus rfl
      exact ⟨.recheck thread, next, rfl, hnext⟩
  | released =>
    obtain ⟨next, hnext⟩ := exists_tally hstage
    exact ⟨.tally thread, next, rfl, hnext⟩
  | counted => exact absurd rfl hne

/-- While the host waits for the count, a thread can move on. -/
theorem Steady.exists_advance (h : Steady rounds) (hturn : rounds.turn = .count)
    (hwaits : rounds.counted < rounds.round) :
    ∃ move next, move.isAdvance = true ∧ rounds.step? move = some next := by
  have hbalance := h.balance
  have hle := h.notices_le
  have hround : rounds.notices = rounds.round := by
    unfold notices round
    rw [hturn]
    rfl
  rw [hround] at hbalance hle
  by_cases huncounted : rounds.uncounted = 0
  · -- No thread was released by the notice of this round, so its permit is still there.
    have hstored : rounds.room.permit.stored = true := by
      cases hcase : rounds.room.permit.stored with
      | true => rfl
      | false =>
        rw [hcase, Bool.toNat_false] at hbalance
        omega
    have hleft : ∃ stage ∈ rounds.stages, stage ≠ .counted := by
      by_contra hall
      push Not at hall
      have hcount : rounds.counted = rounds.host := by
        unfold counted host
        exact List.count_eq_length.mpr fun stage hmem => (hall stage hmem).symm
      omega
    obtain ⟨stage, hmem, hne⟩ := hleft
    obtain ⟨thread, hstage⟩ := List.mem_iff_getElem?.mp hmem
    exact h.exists_advance_of_stored hstored hstage hne
  · obtain ⟨thread, hstage⟩ :=
      List.mem_iff_getElem?.mp (List.count_pos_iff.mp (Nat.pos_of_ne_zero huncounted))
    obtain ⟨next, hnext⟩ := exists_tally hstage
    exact ⟨.tally thread, next, rfl, hnext⟩

/-- The host can give notice when it is its turn and a round is left. -/
theorem exists_notify (hturn : rounds.turn = .notice) (hround : rounds.round ≤ rounds.host) :
    ∃ chosen next, rounds.step? (.notify chosen) = some next := by
  have hstep : ∃ chosen later, rounds.room.step? (.notify chosen) = some later := by
    by_cases hasleep : rounds.room.threads.any Status.isAsleep = true
    · obtain ⟨status, hmem, hstatus⟩ := List.any_eq_true.mp hasleep
      obtain ⟨thread, hthread⟩ := List.mem_iff_getElem?.mp hmem
      cases status with
      | asleep timed => exact ⟨some thread, _, by simp only [Room.step?, hthread]; rfl⟩
      | _ => cases hstatus
    · exact ⟨none, _, by simp only [Room.step?, if_neg hasleep]; rfl⟩
  obtain ⟨chosen, later, hlater⟩ := hstep
  exact ⟨chosen, _, by simp only [step?, hturn, hround, and_self, if_true, hlater]; rfl⟩

/-- Before the last round is over, a move is possible that is not a thread waking on its own. -/
theorem Steady.exists_step (h : Steady rounds) (hrounds : rounds.round ≤ rounds.host) :
    ∃ move next, move.isRouse = false ∧ rounds.step? move = some next := by
  have hhost := h.host_at
  cases hturn : rounds.turn with
  | notice =>
    obtain ⟨chosen, next, hnext⟩ := exists_notify hturn hrounds
    exact ⟨.notify chosen, next, rfl, hnext⟩
  | count =>
    by_cases hseen : rounds.round ≤ rounds.counted
    · exact ⟨.see, _, rfl, by simp only [step?, hturn, hseen, and_self, if_true]; rfl⟩
    · obtain ⟨move, next, hadvance, hnext⟩ := h.exists_advance hturn (Nat.lt_of_not_le hseen)
      refine ⟨move, next, ?_, hnext⟩
      cases move with
      | rouse thread => cases hadvance
      | _ => rfl
  | poll seen =>
    simp only [hturn, Turn.status] at hhost
    exact ⟨.poll, _, rfl, by simp only [step?, hturn, Room.step?, hhost]; rfl⟩
  | listen seen =>
    simp only [hturn, Turn.status] at hhost
    exact ⟨.expire, _, rfl, by simp only [step?, hturn, Room.step?, hhost]; rfl⟩

end Rounds

/-! ## The work that is left -/

/-- How many threads were woken and have not looked since. -/
def Room.woken (room : Room) : Nat :=
  room.threads.countP Status.isWoken

/-- How many moves the host has left in the round that goes on. -/
def Turn.left : Turn → Nat
  | .notice => 0
  | .count => 3
  | .poll _ => 2
  | .listen _ => 1

/-- With each look a woken thread less has to look, and each waking adds one at most. -/
theorem Room.woken_of_goes {room later : Room} {action : Action} {outcome : Outcome}
    (h : Goes room action (later, outcome)) :
    later.woken + action.rechecks ≤ room.woken + action.wakes := by
  unfold woken
  cases h with
  | unheard => exact Nat.le_succ _
  | @heard thread timed at_thread =>
    exact Nat.le_of_eq (countP_set_add Status.isWoken _ thread _ (.notified timed) at_thread)
  | @woke thread timed at_thread =>
    exact Nat.le_of_eq (countP_set_add Status.isWoken _ thread _ (.roused timed) at_thread)
  | @released _ thread _ _ looks at_thread =>
    have hset := countP_set_add Status.isWoken _ thread _ .away at_thread
    cases looks <;> exact Nat.le_of_eq hset
  | @slept _ thread _ timed looks at_thread =>
    have hset := countP_set_add Status.isWoken _ thread _ (.asleep timed) at_thread
    cases looks <;> exact Nat.le_of_eq hset
  | @releasedLast thread _ _ at_thread | @gaveUp thread _ _ at_thread =>
    exact Nat.le_of_add_right_le
      (Nat.le_of_eq (countP_set_add Status.isWoken _ thread _ .away at_thread))

namespace Rounds

variable {rounds next : Rounds}

/-- The work that is left: what each thread has still to do, the looks of the woken ones, and the
moves of the host. -/
def left (rounds : Rounds) : Nat :=
  3 * rounds.stages.count .fresh + 2 * rounds.stages.count .waiting + rounds.uncounted +
    rounds.room.woken + 5 * (rounds.host - rounds.notices) + rounds.turn.left

/-- At the start there are eight moves left for each thread. -/
theorem left_start (n : Nat) : (start n).left = 8 * n := by
  simp [left, start, uncounted, host, notices, Turn.given, Turn.left, Room.woken, Room.quiet,
    List.count_replicate, List.countP_replicate, Status.isWoken]
  omega

/-- A waiting thread has less to do after its action, unless it woke on its own. -/
theorem left_waited {move : Move} {thread : Nat} {stage : Stage} {action : Action} {later : Room}
    {outcome : Outcome} (hwaits : Waits move thread stage action)
    (hstage : rounds.stages[thread]? = some stage)
    (hgoes : Room.Goes rounds.room action (later, outcome)) {new : Stage}
    (hnew : new = .released ∨ new = .waiting) :
    left { rounds with room := later, stages := rounds.stages.set thread new } + 1 ≤
      rounds.left + if move.isRouse then 2 else 0 := by
  have hwoken := Room.woken_of_goes hgoes
  have hfresh := count_set_add Stage.fresh rounds.stages thread stage new hstage
  have hwaiting := count_set_add Stage.waiting rounds.stages thread stage new hstage
  have hreleased := count_set_add Stage.released rounds.stages thread stage new hstage
  simp only [left, uncounted, host, notices, List.length_set]
  cases hwaits <;> rcases hnew with rfl | rfl <;>
    simp only [Action.wakes, Action.rechecks, Move.isRouse, if_true, if_false, reduceCtorEq,
      Bool.false_eq_true] at hwoken hfresh hwaiting hreleased ⊢ <;>
    omega

/-- Every move uses up some of the work, unless a thread wakes on its own. -/
theorem left_goes {move : Move} (h : Goes rounds move next) :
    next.left + 1 ≤ rounds.left + if move.isRouse then 2 else 0 := by
  cases h with
  | waited waits at_thread goes =>
    apply left_waited waits at_thread goes
    split
    · exact .inl rfl
    · exact .inr rfl
  | @tallied thread at_thread =>
    have hfresh := count_set_add Stage.fresh rounds.stages thread _ .counted at_thread
    have hwaiting := count_set_add Stage.waiting rounds.stages thread _ .counted at_thread
    have hreleased := count_set_add Stage.released rounds.stages thread _ .counted at_thread
    simp only [if_true, if_false, reduceCtorEq] at hfresh hwaiting hreleased
    simp only [left, uncounted, host, notices, List.length_set, Move.isRouse]
    omega
  | noticed turn unfinished goes =>
    have hwoken := Room.woken_of_goes goes
    unfold round host at unfinished
    simp only [left, uncounted, host, notices, turn, Turn.given, Turn.left, Action.wakes,
      Action.rechecks, Move.isRouse] at hwoken ⊢
    omega
  | saw turn =>
    simp only [left, uncounted, host, notices, turn, Turn.given, Turn.left, Move.isRouse]
    omega
  | found turn goes | missed turn goes | ended turn goes =>
    have hwoken := Room.woken_of_goes goes
    simp only [Action.wakes, Action.rechecks] at hwoken
    simp only [report, left, uncounted, host, notices, turn, Turn.given, Turn.left,
      List.length_append, List.length_singleton, Move.isRouse]
    omega

/-- Each move uses up some of what is left, and only threads that wake on their own add to it. -/
theorem length_add_left_le {moves : List Move} (hrun : rounds.run? moves = some next) :
    moves.length + next.left ≤ rounds.left + 2 * moves.countP Move.isRouse := by
  induction moves generalizing rounds with
  | nil =>
    cases hrun
    simp
  | cons move moves ih =>
    obtain ⟨middle, hstep, hlater⟩ := Option.bind_eq_some_iff.mp hrun
    have hfirst := left_goes (goes hstep)
    have hrest := ih hlater
    rw [List.length_cons, List.countP_cons]
    by_cases hrouse : move.isRouse = true
    · rw [if_pos hrouse] at hfirst ⊢
      omega
    · rw [if_neg hrouse] at hfirst ⊢
      omega

/-- No move changes how many threads the host waits for. -/
theorem host_goes {move : Move} (h : Goes rounds move next) : next.host = rounds.host := by
  cases h with
  | waited | tallied => exact List.length_set
  | _ => rfl

/-- The host waits for as many threads as there were at the start. -/
theorem host_of_run? {n : Nat} {moves : List Move} (hrun : (start n).run? moves = some rounds) :
    rounds.host = n := by
  have hstart : (start n).host = n := List.length_replicate
  refine run_induction (P := fun current => current.host = n) ?_ hstart hrun
  intro current move next hcurrent hgoes
  exact (host_goes hgoes).trans hcurrent

end Rounds

/-- **Each round releases one thread, and no notice is lost.** Whatever `n` threads and their host
do, and in whatever order, the host has seen one counted thread more in each round that is over, and
found no permit left. Each notice has released a thread, which may not be counted yet, or is still
stored. While the host waits for the count, a thread can move on, other than by waking on its own.
Before the last round is over some such move is always possible, and a thread that wakes on its own
adds two moves at most to the `8 * n` after which nothing is left to do. -/
theorem rounds_release_one_by_one (n : Nat) (moves : List Move) (rounds : Rounds)
    (h : (Rounds.start n).run? moves = some rounds) :
    rounds.reports.length ≤ n ∧
      rounds.reports = (List.range rounds.reports.length).map (fun i => (i + 1, false)) ∧
      (∀ seen, rounds.turn = .poll seen ∨ rounds.turn = .listen seen → seen = rounds.round) ∧
      rounds.uncounted + rounds.counted + rounds.room.permit.stored.toNat = rounds.notices ∧
      (rounds.reports.length = n → rounds.counted = n) ∧
      (rounds.turn = .count → rounds.counted < rounds.round →
        ∃ move next, move.isAdvance = true ∧ rounds.step? move = some next) ∧
      (rounds.reports.length < n →
        ∃ move next, move.isRouse = false ∧ rounds.step? move = some next) ∧
      moves.length ≤ 8 * n + 2 * moves.countP Move.isRouse := by
  have hsteady := Rounds.steady_of_run? h
  have hhost := Rounds.host_of_run? h
  have hle : rounds.notices ≤ n := hhost ▸ hsteady.notices_le
  have hknows := hsteady.knows
  refine ⟨?_, hsteady.reports_eq, ?_, hsteady.balance, ?_, hsteady.exists_advance, ?_, ?_⟩
  · unfold Rounds.notices at hle
    omega
  · rintro seen (hturn | hturn)
    · rw [hturn] at hknows
      exact hknows.1.trans hknows.2
    · rw [hturn] at hknows
      exact hknows.1.trans hknows.2
  · -- No notice is left to give after the last round.
    intro hover
    unfold Rounds.notices at hle
    cases hturn : rounds.turn with
    | notice =>
      rw [hturn] at hknows
      exact hknows.trans hover
    | _ =>
      simp only [hturn, Turn.given] at hle
      omega
  · intro hover
    exact hsteady.exists_step (by unfold Rounds.round; omega)
  · have hlength := Rounds.length_add_left_le h
    rw [Rounds.left_start] at hlength
    omega

/-- Thread 1 arrives only after the first notice, which woke thread 0, and is faster. -/
theorem rounds_release_one_by_one_overtaken :
    ∃ rounds, (Rounds.start 2).run? [.arrive 0, .notify (some 0), .arrive 1, .recheck 0, .tally 1,
        .see, .poll, .expire, .rouse 0, .notify none] = some rounds ∧
      rounds.reports = [(1, false)] ∧ rounds.counted = 1 ∧
      ∃ move next, move.isAdvance = true ∧ rounds.step? move = some next := by
  obtain ⟨-, -, -, -, -, hadvance, -⟩ := rounds_release_one_by_one 2 [.arrive 0, .notify (some 0),
    .arrive 1, .recheck 0, .tally 1, .see, .poll, .expire, .rouse 0, .notify none] _ rfl
  exact ⟨_, rfl, rfl, rfl, hadvance rfl (by decide)⟩

end MessageFeed.Shutdown
