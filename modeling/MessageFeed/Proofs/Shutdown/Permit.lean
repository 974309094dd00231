import MessageFeed.Proofs.Shutdown.Actions
import Mathlib.Data.List.Basic

/-!
# Where the permit comes from

A permit is stored as long as a notice is outstanding: it was given, and no wait ended with a permit
since (`Accounted`). While a permit is stored and a thread sleeps, some thread was woken by a notice
and has still to look (`Attended`), so no notice is lost on the sleeping ones, although a thread
that comes later can be faster than the one that was woken. Both are kept by every action, hence
they hold after every run, whatever the threads do and in whatever order.

A single thread has the same permit: what its calls come to is settled by the calls before them
(`took_iff_outstanding`), and is what the only thread of a room can come to (`call?_eq_some_iff`).
-/

set_option autoImplicit false

namespace MessageFeed.Shutdown

/-- One of some events gave something, and none after it took it. -/
def Outstanding {α : Type} (gives takes : α → Bool) (events : List α) : Prop :=
  ∃ before event after, events = before ++ event :: after ∧ gives event = true ∧
    ∀ later ∈ after, takes later = false

section Outstanding

variable {α : Type} {gives takes : α → Bool}

/-- Nothing is outstanding before the first event. -/
theorem not_outstanding_nil : ¬ Outstanding gives takes [] := by
  rintro ⟨before, event, after, h, -⟩
  simp at h

/-- The last event gives, or it leaves what was outstanding before it. -/
theorem outstanding_snoc_iff (events : List α) (event : α) :
    Outstanding gives takes (events ++ [event]) ↔
      gives event = true ∨ Outstanding gives takes events ∧ takes event = false := by
  constructor
  · rintro ⟨before, given, after, heq, hgives, hafter⟩
    rcases List.eq_nil_or_concat' after with rfl | ⟨after, last, rfl⟩
    · obtain ⟨rfl, hlast⟩ := List.append_inj' heq rfl
      cases hlast
      exact .inl hgives
    · have hsplit : events ++ [event] = (before ++ given :: after) ++ [last] := by simp [heq]
      obtain ⟨rfl, hlast⟩ := List.append_inj' hsplit rfl
      cases hlast
      exact .inr ⟨⟨before, given, after, rfl, hgives, fun e he => hafter e (by simp [he])⟩,
        hafter event (by simp)⟩
  · rintro (hgives | ⟨⟨before, given, after, rfl, hgives, hafter⟩, htakes⟩)
    · exact ⟨events, event, [], rfl, hgives, by simp⟩
    · refine ⟨before, given, after ++ [event], by simp, hgives, ?_⟩
      intro later hlater
      rcases List.mem_append.mp hlater with hlater | hlater
      · exact hafter later hlater
      · rwa [List.mem_singleton.mp hlater]

/-- What is outstanding after some events that took was given among them. -/
theorem exists_gives_of_outstanding_append (events more : List α)
    (h : Outstanding gives takes (events ++ more)) (htakes : ∃ event ∈ more, takes event = true) :
    ∃ event ∈ more, gives event = true := by
  induction more using List.reverseRecOn with
  | nil =>
    obtain ⟨event, hmem, -⟩ := htakes
    cases hmem
  | append_singleton more last ih =>
    rw [← List.append_assoc, outstanding_snoc_iff] at h
    rcases h with hgives | ⟨hbefore, hlast⟩
    · exact ⟨last, by simp, hgives⟩
    · obtain ⟨event, hmem, htakes⟩ := htakes
      rcases List.mem_append.mp hmem with hmem | hmem
      · obtain ⟨given, hgiven, hgives⟩ := ih hbefore ⟨event, hmem, htakes⟩
        exact ⟨given, List.mem_append_left _ hgiven, hgives⟩
      · rw [List.mem_singleton.mp hmem, hlast] at htakes
        cases htakes

end Outstanding

/-! ## Any number of threads -/

namespace Room

variable {room next : Room} {action : Action} {outcome : Outcome}

/-- A notice stores the permit, and only a release takes it. -/
theorem stored_iff_of_goes (h : Goes room action (next, outcome)) :
    next.permit.stored = true ↔
      outcome.isNotice = true ∨ room.permit.stored = true ∧ outcome.isRelease = false := by
  cases h <;> simp_all [Outcome.isNotice, Outcome.isRelease]

/-- A thread is released by a stored permit only. -/
theorem stored_of_isRelease (h : Goes room action (next, outcome))
    (hrelease : outcome.isRelease = true) : room.permit.stored = true := by
  cases h with
  | released _ _ stored => exact stored
  | releasedLast _ _ stored => exact stored
  | _ => cases hrelease

/-- The permit is accounted for by what the actions came to: it is stored if a notice is
outstanding, and each release has had a notice of its own. -/
structure Accounted (room : Room) (outcomes : List Outcome) : Prop where
  stored_iff : room.permit.stored = true ↔
    Outstanding Outcome.isNotice Outcome.isRelease outcomes
  releases_le : outcomes.countP Outcome.isRelease + (if room.permit.stored then 1 else 0) ≤
    outcomes.countP Outcome.isNotice

/-- A permit that is not stored needs no account. -/
theorem accounted_nil (h : room.permit.stored = false) : Accounted room [] where
  stored_iff := iff_of_false (by simp [h]) not_outstanding_nil
  releases_le := by simp [h]

/-- An action keeps the permit accounted for. -/
theorem Accounted.snoc {outcomes : List Outcome} (h : Accounted room outcomes)
    (hgoes : Goes room action (next, outcome)) : Accounted next (outcomes ++ [outcome]) where
  stored_iff := by
    rw [stored_iff_of_goes hgoes, outstanding_snoc_iff, h.stored_iff]
  releases_le := by
    have hle := h.releases_le
    have hstored := stored_iff_of_goes hgoes
    have hrelease := stored_of_isRelease hgoes
    rw [List.countP_append, List.countP_append, List.countP_singleton, List.countP_singleton]
    cases outcome with
    | noticed =>
      simp only [Outcome.isNotice, Outcome.isRelease, Bool.false_eq_true, if_true, if_false]
      split <;> omega
    | released thread =>
      have hbefore : room.permit.stored = true := hrelease rfl
      have hafter : next.permit.stored = false := by
        simpa [Outcome.isNotice, Outcome.isRelease] using hstored
      simp only [hbefore, hafter, Outcome.isNotice, Outcome.isRelease] at hle ⊢
      exact hle
    | _ =>
      have hsame : next.permit.stored = room.permit.stored := by
        rw [Bool.eq_iff_iff, hstored]
        simp [Outcome.isNotice, Outcome.isRelease]
      rw [hsame]
      simpa [Outcome.isNotice, Outcome.isRelease] using hle

/-- A permit is not stored over a sleeping thread, unless a notice woke another thread that has not
looked since. -/
def Attended (room : Room) : Prop :=
  room.permit.stored = true →
    ∀ (thread : Nat) (timed : Bool), room.threads[thread]? = some (.asleep timed) →
      ∃ (other : Nat) (limited : Bool), room.threads[other]? = some (.notified limited)

/-- In a quiet room there is no permit to attend to. -/
theorem attended_quiet (n : Nat) : Attended (quiet n) := by
  intro hstored
  cases hstored

/-- An action leaves no permit unattended over a sleeping thread. -/
theorem Attended.goes (h : room.Attended) (hgoes : Goes room action (next, outcome)) :
    next.Attended := by
  intro hstored thread timed hthread
  cases hgoes with
  | unheard silent =>
    have hsilent := List.any_eq_false.mp silent _ (List.mem_of_getElem? hthread)
    exact absurd rfl hsilent
  | @heard woken limited at_thread =>
    obtain ⟨hlt, -⟩ := List.getElem?_eq_some_iff.mp at_thread
    exact ⟨woken, limited, by simp [hlt]⟩
  | @woke woken limited at_thread =>
    -- The thread that was woken by a notice was not asleep, so it is another one.
    rw [threads_place, List.getElem?_set] at hthread
    split at hthread
    · split at hthread <;> cases hthread
    · obtain ⟨other, limited', hother⟩ := h hstored thread timed hthread
      refine ⟨other, limited', ?_⟩
      have hne : woken ≠ other := by
        rintro rfl
        rw [at_thread] at hother
        cases hother
      rw [threads_place, List.getElem?_set_ne hne, hother]
  | released | releasedLast => cases hstored
  | slept _ _ absent => exact absurd hstored (by simp [absent])
  | gaveUp _ _ absent => exact absurd hstored (by simp [absent])

section Runs

variable {n : Nat} {actions : List Action} {outcomes : List Outcome}

/-- A run of actions keeps the permit accounted for. -/
theorem Accounted.run {past : List Outcome} (h : Accounted room past)
    (hrun : room.run? actions = some (next, outcomes)) : Accounted next (past ++ outcomes) := by
  refine run_induction (P := fun current now => Accounted current (past ++ now)) ?_ ?_ hrun
  · rwa [List.append_nil]
  · intro current now action later outcome _ haccounted hgoes
    rw [← List.append_assoc]
    exact haccounted.snoc hgoes

/-- A run of actions leaves no permit unattended over a sleeping thread. -/
theorem Attended.run (h : room.Attended) (hrun : room.run? actions = some (next, outcomes)) :
    next.Attended :=
  run_induction (P := fun current _ => Attended current) h
    (fun _ _ _ _ _ _ hattended hgoes => hattended.goes hgoes) hrun

/-- Whatever happens in a quiet room, the permit is accounted for. -/
theorem accounted_of_run? (h : (quiet n).run? actions = some (room, outcomes)) :
    Accounted room outcomes :=
  (accounted_nil rfl).run h

/-- Whatever happens in a quiet room, no permit is unattended over a sleeping thread. -/
theorem attended_of_run? (h : (quiet n).run? actions = some (room, outcomes)) : Attended room :=
  (attended_quiet n).run h

/-- Notice is given between two releases. -/
theorem exists_notice_between {before between after : List Outcome} {first second : Outcome}
    (h : (quiet n).run? actions = some (room, before ++ first :: between ++ second :: after))
    (hfirst : first.isRelease = true) (hsecond : second.isRelease = true) :
    ∃ outcome ∈ between, outcome.isNotice = true := by
  obtain ⟨now, rest, middle, -, hnow, hrest⟩ := exists_run?_of_append h
  -- The permit that the second release takes was stored when it came, so a notice was outstanding.
  have hstored : middle.permit.stored = true := by
    cases rest with
    | nil => cases hrest
    | cons action rest =>
      obtain ⟨next, outcome, later, hstep, -, hcons⟩ := run?_cons_iff.mp hrest
      obtain ⟨rfl, -⟩ := List.cons.inj hcons
      exact stored_of_isRelease (goes hstep) hsecond
  have houtstanding := (accounted_of_run? hnow).stored_iff.mp hstored
  obtain ⟨outcome, hmem, hnotice⟩ :=
    exists_gives_of_outstanding_append before (first :: between) houtstanding
      ⟨first, List.mem_cons_self, hfirst⟩
  rcases List.mem_cons.mp hmem with rfl | hmem
  · cases outcome <;> simp [Outcome.isNotice, Outcome.isRelease] at hnotice hfirst
  · exact ⟨outcome, hmem, hnotice⟩

end Runs

end Room

/-! ## A single thread -/

namespace Permit

/-- Whether a call gave notice. -/
def gaveNotice : Call × Answer → Bool
  | (.notify, _) => true
  | _ => false

/-- Whether a call took the permit. -/
def tookPermit : Call × Answer → Bool
  | (.notify, _) => false
  | (.wait, _) => true
  | (.waitFor _, answer) => answer = .took true

variable {permit next : Permit} {call : Call} {answer : Answer}

/-- After a call a permit is stored if the call gave notice, or if one was stored and the call did
not take it. -/
theorem stored_iff_of_call? (h : permit.call? call = some (answer, next)) :
    next.stored = true ↔
      gaveNotice (call, answer) = true ∨
        permit.stored = true ∧ tookPermit (call, answer) = false := by
  cases call with
  | notify =>
    cases h
    simp [notify, gaveNotice]
  | wait =>
    simp only [call?] at h
    split at h
    · cases h
      simp [take, absent, gaveNotice, tookPermit]
    · cases h
  | waitFor milliseconds =>
    cases h
    simp [take, absent, gaveNotice, tookPermit]

/-- Calls are made from the first one on. -/
theorem callAll?_cons_iff {calls : List Call} {answers : List Answer} :
    permit.callAll? (call :: calls) = some answers ↔
      ∃ answer next later, permit.call? call = some (answer, next) ∧
        next.callAll? calls = some later ∧ answers = answer :: later := by
  cases hcall : permit.call? call with
  | none => simp [callAll?, hcall]
  | some first =>
    obtain ⟨answer, next⟩ := first
    cases hrest : next.callAll? calls with
    | none => simp [callAll?, hcall, hrest]
    | some rest => simp [callAll?, hcall, hrest, eq_comm]

/-- A wait with a limit takes a permit exactly when a notice is outstanding. -/
theorem took_iff_outstanding (made : List (Call × Answer)) (calls : List Call)
    (answers : List Answer)
    (hmade : permit.stored = true ↔ Outstanding gaveNotice tookPermit made)
    (h : permit.callAll? calls = some answers) (i : Nat) (milliseconds : Int)
    (hcall : calls[i]? = some (.waitFor milliseconds)) :
    ∃ took, answers[i]? = some (.took took) ∧
      (took = true ↔
        Outstanding gaveNotice tookPermit (made ++ (calls.zip answers).take i)) := by
  induction calls generalizing permit made answers i with
  | nil => simp at hcall
  | cons call calls ih =>
    obtain ⟨answer, next, later, hfirst, hlater, rfl⟩ := callAll?_cons_iff.mp h
    cases i with
    | zero =>
      obtain rfl : call = .waitFor milliseconds := by simpa using hcall
      cases hfirst
      exact ⟨permit.stored, rfl, by simpa using hmade⟩
    | succ i =>
      have hnext : next.stored = true ↔
          Outstanding gaveNotice tookPermit (made ++ [(call, answer)]) := by
        rw [stored_iff_of_call? hfirst, outstanding_snoc_iff, hmade]
      simpa using ih (made ++ [(call, answer)]) later hnext hlater i (by simpa using hcall)

/-- Calls that do not wait without limit all return. -/
theorem exists_callAll? (calls : List Call) (h : .wait ∉ calls) :
    ∃ answers, permit.callAll? calls = some answers := by
  induction calls generalizing permit with
  | nil => exact ⟨[], rfl⟩
  | cons call calls ih =>
    obtain ⟨hcall, hcalls⟩ := not_or.mp (mt List.mem_cons.mpr h)
    have hfirst : ∃ answer next, permit.call? call = some (answer, next) := by
      cases call with
      | notify => exact ⟨_, _, rfl⟩
      | wait => exact absurd rfl hcall
      | waitFor milliseconds => exact ⟨_, _, rfl⟩
    obtain ⟨answer, next, hanswer⟩ := hfirst
    obtain ⟨later, hlater⟩ := @ih next hcalls
    exact ⟨answer :: later, callAll?_cons_iff.mpr ⟨answer, next, later, hanswer, hlater, rfl⟩⟩

/-- The only thread of a room makes a call with these actions, if they end its wait. As often as it
wakes on its own, it looks again. -/
inductive Makes : Call → List Action → Prop where
  | notify : Makes .notify [.notify none]
  | wait {looks : List Action} (own : ∀ a ∈ looks, a = .rouse 0 ∨ a = .recheck 0) :
      Makes .wait (.enter 0 false :: looks)
  | waitFor {milliseconds : Int} {looks : List Action}
      (own : ∀ a ∈ looks, a = .rouse 0 ∨ a = .recheck 0 ∨ a = .expire 0) :
      Makes (.waitFor milliseconds) (.enter 0 true :: looks)

/-- What a call comes back with, by what the actions of its thread came to. -/
def Call.answerOf : Call → List Outcome → Answer
  | .waitFor _, outcomes => .took (outcomes.any Outcome.isRelease)
  | _, _ => .returned

/-- A thread whose wait is over has nothing to look for. -/
theorem eq_nil_of_run?_away {last : Room} {looks : List Action} {outcomes : List Outcome}
    (own : ∀ a ∈ looks, a = .rouse 0 ∨ a = .recheck 0 ∨ a = .expire 0)
    (h : (⟨permit, [.away]⟩ : Room).run? looks = some (last, outcomes)) :
    last = ⟨permit, [.away]⟩ ∧ outcomes = [] := by
  cases looks with
  | nil =>
    cases h
    exact ⟨rfl, rfl⟩
  | cons action looks =>
    obtain ⟨middle, outcome, later, hstep, -⟩ := Room.run?_cons_iff.mp h
    rcases own action List.mem_cons_self with rfl | rfl | rfl <;> cases hstep

/-- A thread that fell asleep without a permit, and is the only one, waits until its time is up. -/
theorem not_released_of_run?_asleep {status : Status} {timed : Bool} {looks : List Action}
    {outcomes : List Outcome} (hstatus : status = .asleep timed ∨ status = .roused timed)
    (own : ∀ a ∈ looks, a = .rouse 0 ∨ a = .recheck 0 ∨ a = .expire 0)
    (h : (⟨absent, [status]⟩ : Room).run? looks = some (⟨next, [.away]⟩, outcomes)) :
    Action.expire 0 ∈ looks ∧ next = absent ∧ outcomes.any Outcome.isRelease = false := by
  induction looks generalizing status outcomes with
  | nil =>
    cases h
    rcases hstatus with hstatus | hstatus <;> cases hstatus
  | cons action looks ih =>
    obtain ⟨middle, outcome, later, hstep, hlater, rfl⟩ := Room.run?_cons_iff.mp h
    have hown : ∀ a ∈ looks, a = .rouse 0 ∨ a = .recheck 0 ∨ a = .expire 0 :=
      fun a ha => own a (List.mem_cons_of_mem action ha)
    rcases own action List.mem_cons_self with rfl | rfl | rfl
    · rcases hstatus with rfl | rfl
      · cases hstep
        obtain ⟨hexpire, hnext, hnone⟩ := ih (.inr rfl) hown hlater
        exact ⟨List.mem_cons_of_mem _ hexpire, hnext, hnone⟩
      · cases hstep
    · rcases hstatus with rfl | rfl
      · cases hstep
      · cases hstep
        obtain ⟨hexpire, hnext, hnone⟩ := ih (.inl rfl) hown hlater
        exact ⟨List.mem_cons_of_mem _ hexpire, hnext, hnone⟩
    · refine ⟨List.mem_cons_self, ?_⟩
      cases timed with
      | false => rcases hstatus with rfl | rfl <;> cases hstep
      | true =>
        have hgone : middle = ⟨absent, [.away]⟩ ∧ outcome = .gaveUp 0 := by
          rcases hstatus with rfl | rfl <;> cases hstep <;> exact ⟨rfl, rfl⟩
        obtain ⟨rfl, rfl⟩ := hgone
        obtain ⟨hlast, rfl⟩ := eq_nil_of_run?_away hown hlater
        cases hlast
        exact ⟨rfl, rfl⟩

/-- The only thread of a room can come to what a call comes to. -/
theorem exists_makes_of_call? (h : permit.call? call = some (answer, next)) :
    ∃ actions outcomes, Makes call actions ∧
      (⟨permit, [.away]⟩ : Room).run? actions = some (⟨next, [.away]⟩, outcomes) ∧
      answer = call.answerOf outcomes := by
  cases call with
  | notify =>
    cases h
    exact ⟨_, _, .notify, rfl, rfl⟩
  | wait =>
    obtain ⟨stored⟩ := permit
    cases stored with
    | false => cases h
    | true =>
      cases h
      exact ⟨_, _, @Makes.wait [] (by simp), rfl, rfl⟩
  | waitFor milliseconds =>
    obtain ⟨stored⟩ := permit
    cases stored with
    | false =>
      cases h
      exact ⟨_, _, @Makes.waitFor milliseconds [.expire 0] (by simp), rfl, rfl⟩
    | true =>
      cases h
      exact ⟨_, _, @Makes.waitFor milliseconds [] (by simp), rfl, rfl⟩

/-- A call comes to what the only thread of a room can come to with it. -/
theorem call?_eq_some_iff :
    permit.call? call = some (answer, next) ↔
      ∃ actions outcomes, Makes call actions ∧
        (⟨permit, [.away]⟩ : Room).run? actions = some (⟨next, [.away]⟩, outcomes) ∧
        answer = call.answerOf outcomes := by
  constructor
  · exact exists_makes_of_call?
  · rintro ⟨actions, outcomes, hmakes, hrun, rfl⟩
    cases hmakes with
    | notify =>
      cases hrun
      rfl
    | @wait looks own =>
      have hown : ∀ a ∈ looks, a = .rouse 0 ∨ a = .recheck 0 ∨ a = .expire 0 := by grind
      obtain ⟨middle, outcome, later, hstep, hlater, rfl⟩ := Room.run?_cons_iff.mp hrun
      obtain ⟨stored⟩ := permit
      cases stored with
      | false =>
        cases hstep
        obtain ⟨hexpire, -⟩ := not_released_of_run?_asleep (.inl rfl) hown hlater
        rcases own _ hexpire with h | h <;> cases h
      | true =>
        cases hstep
        obtain ⟨hlast, -⟩ := eq_nil_of_run?_away hown hlater
        cases hlast
        rfl
    | @waitFor milliseconds looks own =>
      obtain ⟨middle, outcome, later, hstep, hlater, rfl⟩ := Room.run?_cons_iff.mp hrun
      obtain ⟨stored⟩ := permit
      cases stored with
      | false =>
        cases hstep
        obtain ⟨-, rfl, hnone⟩ := not_released_of_run?_asleep (.inl rfl) own hlater
        have hany : (Outcome.slept 0 :: later).any Outcome.isRelease = false := by
          rw [List.any_cons, hnone]
          rfl
        rw [Call.answerOf, hany]
        rfl
      | true =>
        cases hstep
        obtain ⟨hlast, rfl⟩ := eq_nil_of_run?_away own hlater
        cases hlast
        rfl

end Permit

/-- **The permit stands for an outstanding notice.** After every run of any number of threads, a
permit is stored if and only if a notice came and no wait ended with a permit since. So there is a
notice between any two releases, no more releases than notices, and no notice that sleeping threads
miss. A single thread that waits with a limit, whatever limit, always returns, and takes a permit if
and only if a notice is outstanding of the calls that it made before. -/
theorem stored_iff_outstanding :
    (∀ n actions room outcomes, (Room.quiet n).run? actions = some (room, outcomes) →
      (room.permit.stored = true ↔ Outstanding Outcome.isNotice Outcome.isRelease outcomes) ∧
      (∀ before first between second after,
        outcomes = before ++ first :: between ++ second :: after →
        first.isRelease = true → second.isRelease = true →
        ∃ outcome ∈ between, outcome.isNotice = true) ∧
      outcomes.countP Outcome.isRelease ≤ outcomes.countP Outcome.isNotice ∧
      room.Attended) ∧
    ∀ calls, (.wait ∉ calls → ∃ answers, Permit.absent.callAll? calls = some answers) ∧
      ∀ answers, Permit.absent.callAll? calls = some answers →
        ∀ i milliseconds, calls[i]? = some (.waitFor milliseconds) →
          ∃ took, answers[i]? = some (.took took) ∧
            (took = true ↔
              Outstanding Permit.gaveNotice Permit.tookPermit ((calls.zip answers).take i)) := by
  constructor
  · intro n actions room outcomes h
    have haccounted := Room.accounted_of_run? h
    refine ⟨haccounted.stored_iff, ?_, ?_, Room.attended_of_run? h⟩
    · rintro before first between second after rfl hfirst hsecond
      exact Room.exists_notice_between h hfirst hsecond
    · exact Nat.le_trans (Nat.le_add_right _ _) haccounted.releases_le
  · intro calls
    refine ⟨Permit.exists_callAll? calls, ?_⟩
    intro answers h i milliseconds hcall
    have hstart : Permit.absent.stored = true ↔
        Outstanding Permit.gaveNotice Permit.tookPermit [] :=
      iff_of_false Bool.false_ne_true not_outstanding_nil
    exact Permit.took_iff_outstanding [] calls answers hstart h i milliseconds hcall

/-- Thread 2 takes the permit of the notice that woke thread 0, which sleeps again until another
notice wakes it; thread 1 runs out of time as it is woken, and takes its permit all the same. And a
single thread that gives notice twice takes one permit. -/
theorem stored_iff_outstanding_overtaken :
    (Room.quiet 4).run?
        [.enter 3 false, .enter 0 false, .enter 1 true, .notify (some 0), .enter 2 false,
          .recheck 0, .notify (some 1), .expire 1, .notify (some 0)] =
      some (⟨⟨true⟩, [.notified false, .away, .away, .asleep false]⟩,
        [.slept 3, .slept 0, .slept 1, .noticed, .released 2, .slept 0, .noticed, .released 1,
          .noticed]) ∧
      (∃ outcome ∈ [Outcome.slept 0, .noticed], outcome.isNotice = true) ∧
      Room.Attended ⟨⟨true⟩, [.notified false, .away, .away, .asleep false]⟩ ∧
      (∃ answers,
        Permit.absent.callAll? [.waitFor (-5), .notify, .notify, .waitFor 0, .waitFor 3] =
          some answers) ∧
      Permit.absent.callAll? [.waitFor (-5), .notify, .notify, .waitFor 0, .waitFor 3] =
        some [.took false, .returned, .returned, .took true, .took false] ∧
      ¬ Outstanding Permit.gaveNotice Permit.tookPermit
        [(.waitFor (-5), .took false), (.notify, .returned), (.notify, .returned),
          (.waitFor 0, .took true)] := by
  obtain ⟨-, hbetween, -, hattended⟩ := stored_iff_outstanding.1 4
    [.enter 3 false, .enter 0 false, .enter 1 true, .notify (some 0), .enter 2 false, .recheck 0,
      .notify (some 1), .expire 1, .notify (some 0)] _ _ rfl
  obtain ⟨hreturns, htook⟩ :=
    stored_iff_outstanding.2 [.waitFor (-5), .notify, .notify, .waitFor 0, .waitFor 3]
  obtain ⟨took, hlast, houtstanding⟩ := htook _ rfl 4 3 rfl
  cases hlast
  exact ⟨rfl,
    hbetween [.slept 3, .slept 0, .slept 1, .noticed] (.released 2) _ (.released 1) [.noticed] rfl
      rfl rfl,
    hattended, hreturns (by decide), rfl, fun h => Bool.false_ne_true (houtstanding.mpr h)⟩

end MessageFeed.Shutdown
