import MessageFeed.Proofs.Message.Runs
import MessageFeed.Proofs.Position.Lines

/-!
# Rounds of a reading by position

A reading by position has two loops whose rounds are not counted beforehand: one takes the runs of a
text, the other the lines of a buffer. Both are a round made again and again, and `Reaches` says in
which states this comes to stand (`takeRuns_of_reaches`, `takeLines_of_reaches`). Both rounds
advance (`advances_runRound`, `advances_lineRound`): wherever in the text they begin, they violate
no bound and end further on in it. A loop that advances stays in the text, makes no more rounds than
there are bytes (`Reaches.position_le`), and comes to its end (`exists_reaches_end`).

After as many rounds as runs were taken the first loop stands right behind them
(`reaches_of_runs`), so what it has at the end is the normal text (`normalize_eq_ok`).
-/

set_option autoImplicit false

namespace MessageFeed.Position

open Bytes

/-- Where a loop gets to: the states it can be in after some rounds, if it begins in the state given
and no round before violates a bound. A round gives the next state, or none if the loop has come to
its end. -/
inductive Reaches {σ : Type} (round : σ → Checked (Option σ)) (first : σ) : Nat → σ → Prop where
  | first : Reaches round first 0 first
  | next {rounds : Nat} {s t : σ} (before : Reaches round first rounds s)
      (made : round s = .ok (some t)) : Reaches round first (rounds + 1) t

/-- From every position up to `size`, a round comes to the end or moves the position on, to `size`
at most, and violates no bound. -/
def Advances {σ : Type} (round : σ → Checked (Option σ)) (position : σ → Nat) (size : Nat) : Prop :=
  ∀ s, position s ≤ size → round s = .ok none ∨
    ∃ t, round s = .ok (some t) ∧ position s < position t ∧ position t ≤ size

/-- Where the run that begins at a position ends: behind the next brace, or with the text. -/
def runStop (text : Bytes) (start : Nat) : Nat :=
  match find? isBrace text start with
  | none => text.length
  | some brace => brace + 1

/-- A round of the loop over the runs of a text. -/
def runRound (text : Bytes) (state : Nat × Message.Pass) :
    Checked (Option (Nat × Message.Pass)) :=
  if state.1 < text.length then do
    let run ← slice text state.1 (← minus (runStop text state.1) state.1)
    let front ← present run.head?
    let back ← present run.getLast?
    return some (runStop text state.1,
      state.2.takeAs run (front == openBrace && back == closeBrace))
  else return none

/-- A round of the loop over the lines of a buffer. -/
def lineRound (buffer : Bytes) (state : Nat × List Bytes) : Checked (Option (Nat × List Bytes)) :=
  match find? (· == newline) buffer state.1 with
  | none => return none
  | some stop => do
    let line ← slice buffer state.1 (← minus stop state.1)
    return some (stop + 1, line :: state.2)

/-! ## Loops that advance -/

section Loops

variable {σ : Type} {round : σ → Checked (Option σ)} {first : σ} {position : σ → Nat} {size : Nat}

/-- A loop that advances has gone past as many positions as rounds at least, and stays within
bounds. -/
theorem Reaches.position_le {rounds : Nat} {s : σ} (h : Reaches round first rounds s)
    (hround : Advances round position size) (hfirst : position first ≤ size) :
    rounds ≤ position s ∧ position s ≤ size := by
  induction h with
  | first => exact ⟨Nat.zero_le _, hfirst⟩
  | next _ made ih =>
    rcases hround _ ih.2 with hend | ⟨t, hnext, hlt, hle⟩
    · rw [hend] at made
      cases made
    · rw [hnext] at made
      cases made
      omega

/-- A loop that is written as a recursion over its rounds goes on from each state it reaches. -/
theorem Reaches.loop_eq {α : Type} {rounds : Nat} {s : σ} (h : Reaches round first rounds s)
    (loop : Nat → σ → α)
    (hloop : ∀ n s t, round s = .ok (some t) → loop (n + 1) s = loop n t) (more : Nat) :
    loop (rounds + more) first = loop more s := by
  induction h generalizing more with
  | first => rw [Nat.zero_add]
  | @next rounds s t _ made ih =>
    have hstep : rounds + 1 + more = rounds + (more + 1) := by omega
    rw [hstep, ih, hloop more s t made]

/-- From any state within the bounds the rounds come to an end, since each of them advances. -/
theorem exists_reaches_end_of_reaches (hround : Advances round position size) {rounds : Nat} {s : σ}
    (h : Reaches round first rounds s) (hs : position s ≤ size) :
    ∃ rounds last, Reaches round first rounds last ∧ round last = .ok none := by
  rcases hround s hs with hend | ⟨t, hnext, hlt, hle⟩
  · exact ⟨rounds, s, h, hend⟩
  · exact exists_reaches_end_of_reaches hround (h.next hnext) hle
termination_by size - position s

/-- A loop that advances comes to its end, and makes at most `size` rounds for that. -/
theorem exists_reaches_end (hround : Advances round position size)
    (hfirst : position first ≤ size) :
    ∃ rounds last, rounds ≤ size ∧ Reaches round first rounds last ∧ round last = .ok none := by
  obtain ⟨rounds, last, hlast, hend⟩ := exists_reaches_end_of_reaches hround .first hfirst
  have hbound := hlast.position_le hround hfirst
  exact ⟨rounds, last, hbound.1.trans hbound.2, hlast, hend⟩

end Loops

/-! ## Runs -/

section Runs

open Message (firstRun runs)

/-- Taking runs makes one round, and goes on unless that was the last. -/
theorem takeRuns_succ (text : Bytes) (start : Nat) (pass : Message.Pass) (rounds : Nat) :
    takeRuns text start pass (rounds + 1) =
      runRound text (start, pass) >>= fun next =>
        match next with
        | none => .ok pass
        | some state => takeRuns text state.1 state.2 rounds := by
  by_cases hinside : start < text.length
  · simp only [takeRuns, runRound, hinside, if_true, bind_assoc, pure_bind]
    rfl
  · simp only [takeRuns, runRound, hinside, if_false, pure_bind]

/-- Taking runs from a state that some rounds reach is what taking them from the start comes to. -/
theorem takeRuns_of_reaches (text : Bytes) (rounds : Nat) (state : Nat × Message.Pass)
    (h : Reaches (runRound text) (0, .fresh) rounds state) (more : Nat) :
    takeRuns text 0 .fresh (rounds + more) = takeRuns text state.1 state.2 more := by
  apply h.loop_eq fun rounds state => takeRuns text state.1 state.2 rounds
  intro n s t made
  rw [takeRuns_succ, made]
  rfl

/-- At the end of the text no run is left to take. -/
theorem takeRuns_of_end (text : Bytes) (start : Nat) (pass : Message.Pass) (rounds : Nat)
    (h : text.length ≤ start) : takeRuns text start pass rounds = .ok pass := by
  have hend : ¬ start < text.length := Nat.not_lt.mpr h
  cases rounds <;> simp [takeRuns, hend]

/-- What is left of a text begins with its first run, which is not empty. -/
theorem exists_firstRun_append (text : Bytes) (h : text ≠ []) :
    ∃ rest, text = firstRun text ++ rest ∧ firstRun text ≠ [] := by
  rcases Message.firstRun_eq_or_exists text with ⟨-, hwhole⟩ |
    ⟨plain, brace, rest, htext, -, -, hfirst⟩
  · exact ⟨[], by rw [hwhole, List.append_nil], by rwa [hwhole]⟩
  · refine ⟨rest, ?_, by simp [hfirst]⟩
    rw [hfirst, htext]
    simp

/-- The run that begins somewhere in a text is the first run of what is left of it. -/
theorem runStop_append (before text : Bytes) :
    runStop (before ++ text) before.length = before.length + (firstRun text).length := by
  unfold runStop
  rcases Message.firstRun_eq_or_exists text with ⟨hplain, hwhole⟩ |
    ⟨plain, brace, rest, rfl, hplain, hbrace, hfirst⟩
  · rw [find?_eq_none isBrace before text hplain, hwhole]
    exact List.length_append
  · have hfind := find?_eq_some isBrace before plain brace rest hplain hbrace
    have hlength : (plain ++ [brace]).length = plain.length + 1 := List.length_append
    rw [List.append_assoc] at hfind
    rw [hfind, hfirst, hlength, ← Nat.add_assoc]

/-- A round takes the first run of what is left of the text. -/
theorem runRound_append (before text : Bytes) (pass : Message.Pass) (h : text ≠ []) :
    runRound (before ++ text) (before.length, pass) =
      .ok (some (before.length + (firstRun text).length, pass.take (firstRun text))) := by
  obtain ⟨rest, htext, hne⟩ := exists_firstRun_append text h
  have hinside : before.length < (before ++ text).length := by
    have := List.length_pos_iff.mpr h
    rw [List.length_append]
    omega
  have hstop := runStop_append before text
  have hminus := minus_add_left before.length (firstRun text).length
  have hslice := slice_append before (firstRun text) rest
  rw [List.append_assoc, ← htext] at hslice
  have hhead := List.head?_eq_some_head hne
  have hlast := List.getLast?_eq_some_getLast hne
  have henclosed : Message.isEnclosed (firstRun text) =
      ((firstRun text).head hne == openBrace && (firstRun text).getLast hne == closeBrace) := by
    simp [Message.isEnclosed, hhead, hlast]
  simp only [runRound, hinside, if_true, hstop, hminus, hslice, hhead, hlast, present, bind,
    Except.bind, pure, Except.pure, Message.Pass.take, henclosed]

/-- A round that begins within the text takes a run that is not empty and ends within the text. -/
theorem exists_run (text : Bytes) (start : Nat) (h : start < text.length) :
    ∃ run, run ≠ [] ∧ runStop text start = start + run.length ∧
      start + run.length ≤ text.length ∧ slice text start run.length = .ok run ∧
      ∀ pass, runRound text (start, pass) = .ok (some (start + run.length, pass.take run)) := by
  obtain ⟨before, after, rfl, rfl⟩ : ∃ before after, text = before ++ after ∧
      before.length = start := by
    refine ⟨text.take start, text.drop start, (List.take_append_drop start text).symm, ?_⟩
    rw [List.length_take]
    omega
  have hne : after ≠ [] := by
    rintro rfl
    simp at h
  obtain ⟨rest, hafter, hrun⟩ := exists_firstRun_append after hne
  have hslice := slice_append before (firstRun after) rest
  rw [List.append_assoc, ← hafter] at hslice
  refine ⟨firstRun after, hrun, runStop_append before after, ?_, hslice,
    fun pass => runRound_append before after pass hne⟩
  have hlength : after.length = (firstRun after).length + rest.length := by
    rw [← List.length_append, ← hafter]
  rw [List.length_append]
  omega

/-- Each round of taking runs makes its position go up, and not beyond the text. -/
theorem advances_runRound (text : Bytes) :
    Advances (runRound text) (fun state => state.1) text.length := by
  rintro ⟨start, pass⟩ hstart
  simp only at hstart
  rcases Nat.lt_or_eq_of_le hstart with hinside | rfl
  · obtain ⟨run, hne, -, hle, -, hround⟩ := exists_run text start hinside
    have hpos := List.length_pos_iff.mpr hne
    exact .inr ⟨_, hround pass, Nat.lt_add_of_pos_right hpos, hle⟩
  · left
    simp only [runRound, Nat.lt_irrefl, if_false]
    rfl

/-- After as many rounds as runs were taken, the loop stands behind them. -/
theorem reaches_of_runs (text : Bytes) (done rest : List Bytes) (h : runs text = done ++ rest) :
    Reaches (runRound text) (0, .fresh) done.length
      (done.flatten.length, done.foldl Message.Pass.take .fresh) := by
  induction done using List.reverseRecOn generalizing rest with
  | nil => exact .first
  | append_singleton done run ih =>
    have hsplit : runs text = done ++ run :: rest := by simpa using h
    have htext : text = done.flatten ++ (run ++ rest.flatten) := by
      have hflatten : (runs text).flatten = text := List.flatten_splitBy _ text
      rw [← hflatten, hsplit, List.flatten_append, List.flatten_cons]
    have hrun := Message.eq_firstRun text run done rest hsplit
    have hmem : run ∈ runs text := by
      rw [hsplit]
      exact List.mem_append_right _ List.mem_cons_self
    have hne : run ++ rest.flatten ≠ [] :=
      List.append_ne_nil_of_left_ne_nil (List.ne_nil_of_mem_splitBy hmem) rest.flatten
    have hround := runRound_append done.flatten (run ++ rest.flatten)
      (done.foldl Message.Pass.take .fresh) hne
    rw [← htext, ← hrun] at hround
    have hnext := (ih (run :: rest) hsplit).next hround
    simpa using hnext

/-- Reading by position, the normal text of a message is its normal text. -/
theorem normalize_eq_ok (text : Bytes) : normalize text = .ok (Message.normalize text) := by
  have hreaches := reaches_of_runs text (runs text) [] (List.append_nil _).symm
  have hflatten : (runs text).flatten = text := List.flatten_splitBy _ text
  rw [hflatten] at hreaches
  have hbound := (hreaches.position_le (advances_runRound text) (Nat.zero_le _)).1
  obtain ⟨more, hmore⟩ := Nat.exists_eq_add_of_le hbound
  have htaken := takeRuns_of_reaches text _ _ hreaches more
  simp only at hmore htaken
  rw [← hmore, takeRuns_of_end text _ _ more (Nat.le_refl _)] at htaken
  rw [normalize, htaken]
  rfl

end Runs

/-! ## Lines -/

/-- What is found is in the text, at the position to begin from or behind it. -/
theorem bounds_of_find? (kind : UInt8 → Bool) (text : Bytes) (start i : Nat)
    (h : find? kind text start = some i) : start ≤ i ∧ i < text.length := by
  unfold find? at h
  rw [List.find?_range_eq_some] at h
  obtain ⟨hi, hmem, -⟩ := h
  rw [Bool.and_eq_true, decide_eq_true_iff] at hi
  exact ⟨hi.1, List.mem_range.mp hmem⟩

/-- Each round of taking lines makes its position go up, and not beyond the buffer. -/
theorem advances_lineRound (buffer : Bytes) :
    Advances (lineRound buffer) (fun state => state.1) buffer.length := by
  rintro ⟨start, lines⟩ hstart
  simp only at hstart
  unfold lineRound
  cases hfind : find? (· == newline) buffer start with
  | none => exact .inl rfl
  | some stop =>
    right
    obtain ⟨hle, hlt⟩ := bounds_of_find? _ buffer start stop hfind
    simp only [minus_of_le stop start hle, slice, if_pos hstart, bind, Except.bind, pure,
      Except.pure]
    exact ⟨_, rfl, by simp only; omega, by simp only; omega⟩

/-- Taking lines makes one round, and goes on unless that was the last. -/
theorem takeLines_succ (buffer : Bytes) (start : Nat) (lines : List Bytes) (rounds : Nat) :
    takeLines buffer start lines (rounds + 1) =
      lineRound buffer (start, lines) >>= fun next =>
        match next with
        | none => .ok (start, lines)
        | some state => takeLines buffer state.1 state.2 rounds := by
  unfold lineRound
  rw [takeLines]
  cases hfind : find? (· == newline) buffer start with
  | none => rfl
  | some stop =>
    simp only [bind_assoc, pure_bind]

/-- Taking lines from a state that some rounds reach is what taking them from the start comes to. -/
theorem takeLines_of_reaches (buffer : Bytes) (rounds : Nat) (state : Nat × List Bytes)
    (h : Reaches (lineRound buffer) (0, []) rounds state) (more : Nat) :
    takeLines buffer 0 [] (rounds + more) = takeLines buffer state.1 state.2 more := by
  apply h.loop_eq fun rounds state => takeLines buffer state.1 state.2 rounds
  intro n s t made
  rw [takeLines_succ, made]
  rfl

end MessageFeed.Position
