import MessageFeed.Proofs.Shutdown.Moves
import MessageFeed.Proofs.Shutdown.Permit

/-!
# What the moves of a round keep

Each notice that the host gave has released one thread, or its permit is still stored
(`Steady.balance`). The count may lag behind by a thread that was released and has not counted
itself. But the host gives no notice before it has seen the count of its round. So except while it
waits for the count, every notice has come to a thread that is counted (`Steady.idle`): the host can
only have seen the number of its round, and it finds no permit.

Every move keeps this (`Steady.goes`), by the ways in which it can go: a waiting thread acts in the
room, a released one counts itself, and the host makes its own moves.
-/

set_option autoImplicit false

namespace MessageFeed.Shutdown

/-- Where in the room a thread of this stage is. -/
def Stage.Fits : Stage → Status → Prop
  | .waiting, status => status = .asleep false ∨ status = .notified false ∨ status = .roused false
  | _, status => status = .away

/-- Where in the room the host is in its turn. -/
def Turn.status : Turn → Status
  | .listen _ => .asleep true
  | _ => .away

/-- How many notices the host has given in the round that goes on. -/
def Turn.given : Turn → Nat
  | .notice => 0
  | _ => 1

/-- In its turn, after some rounds that are over, the host knows this about the count. -/
def Turn.Knows (finished counted : Nat) : Turn → Prop
  | .notice => counted = finished
  | .count => finished ≤ counted
  | .poll seen => seen = counted ∧ counted = finished + 1
  | .listen seen => seen = counted ∧ counted = finished + 1

namespace Rounds

/-- How many notices the host has given. -/
def notices (rounds : Rounds) : Nat :=
  rounds.reports.length + rounds.turn.given

/-- The number of threads whose wait is over, but that have not counted themselves. -/
def uncounted (rounds : Rounds) : Nat :=
  rounds.stages.count .released

/-- What every move keeps. The threads are in the room where their stages say, each notice has
released a thread or is still stored, and the host reported one thread more in each round. -/
structure Steady (rounds : Rounds) : Prop where
  length_threads : rounds.room.threads.length = rounds.host + 1
  fits : ∀ (thread : Nat) (stage : Stage), rounds.stages[thread]? = some stage →
    ∃ status, rounds.room.threads[thread]? = some status ∧ stage.Fits status
  host_at : rounds.room.threads[rounds.host]? = some rounds.turn.status
  attended : rounds.room.Attended
  balance : rounds.uncounted + rounds.counted + rounds.room.permit.stored.toNat = rounds.notices
  notices_le : rounds.notices ≤ rounds.host
  knows : rounds.turn.Knows rounds.reports.length rounds.counted
  reports_eq : rounds.reports = (List.range rounds.reports.length).map fun i => (i + 1, false)

/-- The rounds start steadily. -/
theorem steady_start (n : Nat) : Steady (start n) where
  length_threads := by simp [start, host, Room.quiet]
  fits := by
    intro thread stage hstage
    obtain ⟨hlt, rfl⟩ := List.getElem?_eq_some_iff.mp hstage
    have hthread : thread < n := by simpa [start] using hlt
    refine ⟨.away, ?_, by simp [start, Stage.Fits]⟩
    simp [start, Room.quiet, List.getElem?_replicate]
    omega
  host_at := by simp [start, host, Room.quiet, Turn.status]
  attended := Room.attended_quiet (n + 1)
  balance := by
    simp [start, uncounted, counted, notices, Turn.given, Room.quiet, Permit.absent,
      List.count_replicate]
  notices_le := by simp [start, notices, Turn.given]
  knows := by simp [start, Turn.Knows, counted, List.count_replicate]
  reports_eq := rfl

variable {rounds next : Rounds}

/-- Except while the host waits for the count, each notice has come to a thread that is counted. -/
theorem Steady.idle (h : Steady rounds) (hturn : rounds.turn ≠ .count) :
    rounds.uncounted = 0 ∧ rounds.room.permit.stored = false := by
  have hbalance := h.balance
  have hknows := h.knows
  have hsum : rounds.uncounted + rounds.room.permit.stored.toNat = 0 := by
    unfold notices at hbalance
    cases hat : rounds.turn with
    | notice =>
      simp only [hat, Turn.Knows, Turn.given] at hknows hbalance
      omega
    | count => exact absurd hat hturn
    | poll seen =>
      simp only [hat, Turn.Knows, Turn.given] at hknows hbalance
      omega
    | listen seen =>
      simp only [hat, Turn.Knows, Turn.given] at hknows hbalance
      omega
  obtain ⟨hzero, hstored⟩ := Nat.add_eq_zero_iff.mp hsum
  exact ⟨hzero, by simpa using hstored⟩

/-! ## The moves of the threads -/

/-- A waiting thread leaves with the permit or goes on to wait. -/
theorem exists_fits_of_goes {room later : Room} {move : Move} {thread : Nat} {stage : Stage}
    {action : Action} {outcome : Outcome} {status : Status}
    (hwaits : Waits move thread stage action)
    (hgoes : Room.Goes room action (later, outcome))
    (hstatus : room.threads[thread]? = some status) (hfits : stage.Fits status) :
    ∃ after, later.threads = room.threads.set thread after ∧
      (outcome = .released thread ∧ after = .away ∧
          later.permit.stored.toNat + 1 = room.permit.stored.toNat ∨
        outcome ≠ .released thread ∧ Stage.Fits .waiting after ∧
          later.permit.stored.toNat = room.permit.stored.toNat) := by
  cases hwaits with
  | arrive =>
    cases hgoes with
    | released looks _ stored =>
      cases looks
      exact ⟨.away, rfl, .inl ⟨rfl, rfl, by simp [stored]⟩⟩
    | slept looks _ absent =>
      cases looks
      exact ⟨.asleep false, rfl, .inr ⟨by simp, .inl rfl, rfl⟩⟩
  | rouse =>
    cases hgoes with
    | woke at_thread =>
      rw [hstatus] at at_thread
      cases at_thread
      obtain ⟨rfl⟩ : Status.asleep _ = .asleep false := by simpa [Stage.Fits] using hfits
      exact ⟨.roused false, rfl, .inr ⟨by simp, .inr (.inr rfl), rfl⟩⟩
    | released looks => cases looks
    | slept looks => cases looks
  | recheck =>
    cases hgoes with
    | released looks _ stored =>
      cases looks <;> exact ⟨.away, rfl, .inl ⟨rfl, rfl, by simp [stored]⟩⟩
    | slept looks at_thread absent =>
      cases looks
      all_goals
        rw [hstatus] at at_thread
        cases at_thread
        obtain rfl : _ = false := by simpa [Stage.Fits] using hfits
        exact ⟨.asleep false, rfl, .inr ⟨by simp, .inl rfl, rfl⟩⟩

/-- The room and the stages after one thread has taken a turn in both. -/
theorem Steady.set (h : Steady rounds) {thread : Nat} {old new : Stage} {after : Status}
    {permit : Permit} (hold : rounds.stages[thread]? = some old) (hfits : new.Fits after)
    (hattended : Room.Attended ⟨permit, rounds.room.threads.set thread after⟩)
    (hbalance : (rounds.stages.set thread new).count .released +
      (rounds.stages.set thread new).count .counted + permit.stored.toNat = rounds.notices)
    (hknows : rounds.turn.Knows rounds.reports.length
      ((rounds.stages.set thread new).count .counted)) :
    Steady { rounds with
      room := ⟨permit, rounds.room.threads.set thread after⟩
      stages := rounds.stages.set thread new } := by
  obtain ⟨hlt, -⟩ := List.getElem?_eq_some_iff.mp hold
  have hhost : (rounds.stages.set thread new).length = rounds.host := List.length_set
  refine ⟨?_, ?_, ?_, hattended, hbalance, ?_, hknows, h.reports_eq⟩
  · rw [host, hhost, List.length_set, h.length_threads]
  · intro other stage hother
    by_cases hsame : thread = other
    · subst hsame
      have hthread : thread < rounds.room.threads.length := by
        rw [h.length_threads]
        exact Nat.lt_succ_of_lt hlt
      rw [List.getElem?_set_self hlt] at hother
      cases hother
      exact ⟨after, List.getElem?_set_self hthread, hfits⟩
    · rw [List.getElem?_set_ne hsame] at hother ⊢
      exact h.fits other stage hother
  · have hne : thread ≠ rounds.host := Nat.ne_of_lt hlt
    rw [host, hhost, List.getElem?_set_ne hne, h.host_at]
  · rw [host, hhost]
    exact h.notices_le

/-- A waiting thread takes an action: the permit goes to it or stays. -/
theorem Steady.waited (h : Steady rounds) {move : Move} {thread : Nat} {stage : Stage}
    {action : Action} {later : Room} {outcome : Outcome} (hwaits : Waits move thread stage action)
    (hstage : rounds.stages[thread]? = some stage)
    (hgoes : Room.Goes rounds.room action (later, outcome)) :
    Steady { rounds with
      room := later
      stages := rounds.stages.set thread
        (if outcome = Outcome.released thread then .released else .waiting) } := by
  obtain ⟨status, hstatus, hfits⟩ := h.fits thread stage hstage
  obtain ⟨after, hthreads, hcases⟩ := exists_fits_of_goes hwaits hgoes hstatus hfits
  have hattended := h.attended.goes hgoes
  have hbalance := h.balance
  have hold : stage ≠ .released ∧ stage ≠ .counted := by
    cases hwaits <;> exact ⟨by decide, by decide⟩
  have hreleased := fun new => count_set_add Stage.released rounds.stages thread stage new hstage
  have hcounted := fun new => count_set_add Stage.counted rounds.stages thread stage new hstage
  simp only [if_neg hold.1, if_neg hold.2, Nat.add_zero] at hreleased hcounted
  unfold uncounted counted at hbalance
  obtain ⟨permit, threads⟩ := later
  subst hthreads
  rcases hcases with ⟨rfl, rfl, hpermit⟩ | ⟨hne, hwaiting, hpermit⟩
  · have hone := hreleased .released
    have hsame := hcounted .released
    simp only [if_true, if_false, reduceCtorEq, Nat.add_zero] at hone hsame ⊢
    refine h.set hstage rfl hattended (by simp only at hpermit; omega) ?_
    rw [hsame]
    exact h.knows
  · have hnone := hreleased .waiting
    have hsame := hcounted .waiting
    simp only [if_neg hne, if_false, reduceCtorEq, Nat.add_zero] at hnone hsame ⊢
    refine h.set hstage hwaiting hattended (by simp only at hpermit; omega) ?_
    rw [hsame]
    exact h.knows

/-- A released thread counts itself, which only happens while the host waits for the count. -/
theorem Steady.tallied (h : Steady rounds) {thread : Nat}
    (hstage : rounds.stages[thread]? = some .released) :
    Steady { rounds with stages := rounds.stages.set thread .counted } := by
  have hpos : 0 < rounds.uncounted := List.count_pos_iff.mpr (List.mem_of_getElem? hstage)
  have hturn : rounds.turn = .count := by
    by_contra hne
    exact Nat.ne_of_gt hpos (h.idle hne).1
  obtain ⟨status, hstatus, hfits⟩ := h.fits thread .released hstage
  obtain rfl : status = .away := hfits
  have hsame : rounds.room.threads.set thread .away = rounds.room.threads := by
    obtain ⟨hlt, heq⟩ := List.getElem?_eq_some_iff.mp hstatus
    rw [← heq, List.set_getElem_self]
  have hless := count_set_add Stage.released rounds.stages thread .released .counted hstage
  have hmore := count_set_add Stage.counted rounds.stages thread .released .counted hstage
  simp only [if_true, if_false, reduceCtorEq, Nat.add_zero] at hless hmore
  have hbalance := h.balance
  have hknows := h.knows
  unfold uncounted counted at hbalance
  rw [hturn, Turn.Knows, counted] at hknows
  have hset : Steady { rounds with
      room := ⟨rounds.room.permit, rounds.room.threads.set thread .away⟩
      stages := rounds.stages.set thread .counted } :=
    h.set hstage rfl (by rw [hsame]; exact h.attended) (by omega)
      (by rw [hturn, Turn.Knows]; omega)
  rw [hsame] at hset
  exact hset

/-! ## The moves of the host -/

/-- The threads do not notice where the host is. -/
theorem Steady.fits_set_host (h : Steady rounds) (status : Status) :
    ∀ (thread : Nat) (stage : Stage), rounds.stages[thread]? = some stage →
      ∃ now, (rounds.room.threads.set rounds.host status)[thread]? = some now ∧ stage.Fits now := by
  intro thread stage hstage
  obtain ⟨hlt, -⟩ := List.getElem?_eq_some_iff.mp hstage
  have hne : rounds.host ≠ thread := Nat.ne_of_gt hlt
  rw [List.getElem?_set_ne hne]
  exact h.fits thread stage hstage

/-- The thread that a notice wakes is not the host, and it waits without limit. -/
theorem Steady.noticed (h : Steady rounds) {chosen : Option Nat} {later : Room} {outcome : Outcome}
    (hturn : rounds.turn = .notice) (hround : rounds.round ≤ rounds.host)
    (hgoes : Room.Goes rounds.room (.notify chosen) (later, outcome)) :
    Steady { rounds with room := later, turn := .count } := by
  obtain ⟨huncounted, hstored⟩ := h.idle (by simp [hturn])
  have hknows := h.knows
  have hhost := h.host_at
  rw [hturn] at hknows hhost
  unfold Turn.Knows at hknows
  have hnotices : rounds.uncounted + rounds.counted + 1 = rounds.reports.length + 1 := by omega
  cases hgoes with
  | unheard silent =>
    exact ⟨h.length_threads, h.fits, hhost, h.attended.goes (.unheard silent), hnotices, hround,
      Nat.le_of_eq hknows.symm, h.reports_eq⟩
  | @heard woken timed at_thread =>
    have hne : woken ≠ rounds.host := by
      rintro rfl
      rw [hhost] at at_thread
      cases at_thread
    refine ⟨List.length_set.trans h.length_threads, ?_, (List.getElem?_set_ne hne).trans hhost,
      h.attended.goes (.heard at_thread), hnotices, hround, Nat.le_of_eq hknows.symm, h.reports_eq⟩
    intro thread stage hstage
    obtain ⟨status, hstatus, hfits⟩ := h.fits thread stage hstage
    by_cases hsame : woken = thread
    · subst hsame
      rw [hstatus] at at_thread
      cases at_thread
      cases stage with
      | waiting =>
        obtain ⟨hlt, -⟩ := List.getElem?_eq_some_iff.mp hstatus
        refine ⟨.notified timed, List.getElem?_set_self hlt, ?_⟩
        rcases hfits with hfits | hfits | hfits <;> cases hfits
        exact .inr (.inl rfl)
      | _ => cases hfits
    · exact ⟨status, (List.getElem?_set_ne hsame).trans hstatus, hfits⟩
  | released looks => cases looks
  | slept looks => cases looks

/-- More threads than that cannot be counted, as no more notices were given. -/
theorem Steady.saw (h : Steady rounds) (hturn : rounds.turn = .count)
    (henough : rounds.round ≤ rounds.counted) :
    Steady { rounds with turn := .poll rounds.counted } := by
  have hbalance := h.balance
  have hhost := h.host_at
  have hle := h.notices_le
  unfold notices at hbalance hle
  unfold round at henough
  rw [hturn] at hbalance hhost hle
  have hcounted : rounds.counted = rounds.reports.length + 1 := by
    simp only [Turn.given] at hbalance
    omega
  exact ⟨h.length_threads, h.fits, hhost, h.attended, hbalance, hle, ⟨rfl, hcounted⟩, h.reports_eq⟩

/-- The host is one of the threads in the room. -/
theorem Steady.host_lt (h : Steady rounds) : rounds.host < rounds.room.threads.length := by
  rw [h.length_threads]
  exact Nat.lt_succ_self _

/-- The host finds no permit when it looks, and sleeps until its time is up. -/
theorem Steady.missed (h : Steady rounds) {seen : Nat} {later : Room} {outcome : Outcome}
    (hturn : rounds.turn = .poll seen)
    (hgoes : Room.Goes rounds.room (.enter rounds.host true) (later, outcome)) :
    outcome ≠ .released rounds.host ∧
      Steady { rounds with room := later, turn := .listen seen } := by
  obtain ⟨-, hstored⟩ := h.idle (by simp [hturn])
  have hbalance := h.balance
  have hle := h.notices_le
  have hknows := h.knows
  unfold notices at hbalance hle
  rw [hturn] at hbalance hle hknows
  cases hgoes with
  | released _ _ stored => simp [hstored] at stored
  | slept looks at_thread absent =>
    have hattended := h.attended.goes (.slept looks at_thread absent)
    cases looks
    exact ⟨by simp, List.length_set.trans h.length_threads, h.fits_set_host _,
      List.getElem?_set_self h.host_lt, hattended, hbalance, hle, hknows, h.reports_eq⟩

/-- The host has found no permit either when its time is up, and its round ends. -/
theorem Steady.ended (h : Steady rounds) {seen : Nat} {later : Room} {outcome : Outcome}
    (hturn : rounds.turn = .listen seen)
    (hgoes : Room.Goes rounds.room (.expire rounds.host) (later, outcome)) :
    Steady ({ rounds with room := later }.report seen
      (decide (outcome = Outcome.released rounds.host))) := by
  obtain ⟨-, hstored⟩ := h.idle (by simp [hturn])
  have hbalance := h.balance
  have hle := h.notices_le
  have hknows := h.knows
  unfold notices at hbalance hle
  rw [hturn] at hbalance hle hknows
  obtain ⟨hseen, hcounted⟩ := hknows
  cases hgoes with
  | released looks => cases looks
  | slept looks => cases looks
  | releasedLast _ _ stored => simp [hstored] at stored
  | gaveUp timed at_thread absent =>
    have hattended := h.attended.goes (.gaveUp timed at_thread absent)
    have hreports : rounds.reports ++ [(seen, false)] =
        (List.range (rounds.reports ++ [(seen, false)]).length).map fun i => (i + 1, false) := by
      rw [List.length_append, List.length_singleton, List.range_succ, List.map_append,
        ← h.reports_eq, hseen, hcounted]
      rfl
    have hlength : rounds.reports.length + 1 = (rounds.reports ++ [(seen, false)]).length := by
      rw [List.length_append, List.length_singleton]
    simp only [Turn.given] at hbalance hle
    rw [hlength] at hbalance hle hcounted
    exact ⟨List.length_set.trans h.length_threads, h.fits_set_host _,
      List.getElem?_set_self h.host_lt, hattended, hbalance, hle, hcounted, hreports⟩

/-! ## Every move -/

/-- Every move keeps the rounds steady. -/
theorem Steady.goes (h : Steady rounds) {move : Move} (hgoes : Goes rounds move next) :
    Steady next := by
  cases hgoes with
  | waited waits at_thread goes => exact h.waited waits at_thread goes
  | tallied at_thread => exact h.tallied at_thread
  | noticed turn unfinished goes => exact h.noticed turn unfinished goes
  | saw turn enough => exact h.saw turn enough
  | found turn goes => exact absurd rfl (h.missed turn goes).1
  | missed turn goes => exact (h.missed turn goes).2
  | ended turn goes => exact h.ended turn goes

/-- The rounds are steady after any moves. -/
theorem steady_of_run? {n : Nat} {moves : List Move} (hrun : (start n).run? moves = some rounds) :
    Steady rounds :=
  run_induction (fun _ _ _ hsteady hgoes => hsteady.goes hgoes) (steady_start n) hrun

end Rounds

end MessageFeed.Shutdown
