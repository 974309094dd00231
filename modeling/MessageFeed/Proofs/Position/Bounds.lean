import MessageFeed.Proofs.Position.Rounds
import MessageFeed.Proofs.Position.Tokens

/-!
# Reading by position stays within bounds

Whatever its text, a reading by position ends without a violation, and finds what is found without
positions. The bounds that this rests on are told for each of its parts: for the loop over the runs
of a text (`runsWithin`), the pass over the bytes of a line with the trimming of its segments
(`tokensWithin`), and the loop over the lines of a buffer (`linesWithin`). A line is read by the
first two, one after the other (`ofLine_eq_ok`).
-/

set_option autoImplicit false

namespace MessageFeed.Position

open Bytes

/-- Taking the runs of a text stays within it. -/
structure RunsWithin (text : Bytes) : Prop where
  /-- The rounds are those of the reading: from a state that they reach, it goes on. -/
  reached : ∀ rounds state, Reaches (runRound text) (0, .fresh) rounds state →
    ∀ more, takeRuns text 0 .fresh (rounds + more) = takeRuns text state.1 state.2 more
  /-- Every round moves on in the text, or is the end. -/
  advances : Advances (runRound text) (fun state => state.1) text.length
  /-- In every round the run begins within the text, is not empty, and ends within the text. -/
  round : ∀ rounds start pass, Reaches (runRound text) (0, .fresh) rounds (start, pass) →
    rounds ≤ start ∧ start ≤ text.length ∧ (start < text.length →
      start < runStop text start ∧ runStop text start ≤ text.length ∧
        ∃ run, slice text start (runStop text start - start) = .ok run ∧ run ≠ [])
  /-- The end is reached in as many rounds as the text has bytes. -/
  ends : ∃ rounds last, rounds ≤ text.length ∧ Reaches (runRound text) (0, .fresh) rounds last ∧
    runRound text last = .ok none
  result : normalize text = .ok (Message.normalize text)

/-- Finding the tokens of a line stays within it. -/
structure TokensWithin (line : Bytes) : Prop where
  /-- At every byte, and at the end, the open segment begins at that byte or before it. -/
  start_le : ∀ i ≤ line.length, ∃ cursor,
    (List.range i).foldlM (Cursor.step line) ⟨0, 0, []⟩ = .ok cursor ∧ cursor.start ≤ i
  /-- If a segment has a first byte that is not blank, it has a last one, there or behind it. -/
  trim : ∀ segment first, find? (fun b => !isBlank b) segment 0 = some first →
    ∃ last, findLast? (fun b => !isBlank b) segment = some last ∧
      first ≤ last ∧ last < segment.length
  result : tokens line = .ok (Token.scan line)

/-- Taking the lines out of a buffer stays within it. -/
structure LinesWithin (buffer : Bytes) : Prop where
  /-- The rounds are those of the reading: from a state that they reach, it goes on. -/
  reached : ∀ rounds state, Reaches (lineRound buffer) (0, []) rounds state →
    ∀ more, takeLines buffer 0 [] (rounds + more) = takeLines buffer state.1 state.2 more
  /-- Every round moves on in the buffer, or is the end. -/
  advances : Advances (lineRound buffer) (fun state => state.1) buffer.length
  /-- In every round the line begins within the buffer, and so does its newline, not before it. -/
  round : ∀ rounds start lines, Reaches (lineRound buffer) (0, []) rounds (start, lines) →
    rounds ≤ start ∧ start ≤ buffer.length ∧ ∀ stop, find? (· == newline) buffer start = some stop →
      start ≤ stop ∧ stop < buffer.length
  /-- The end is reached in as many rounds as the buffer has bytes. -/
  ends : ∃ rounds last, rounds ≤ buffer.length ∧ Reaches (lineRound buffer) (0, []) rounds last ∧
    lineRound buffer last = .ok none
  result : cut buffer = .ok (Frames.cut buffer)

/-- Taking the runs of a text keeps within the text. -/
theorem runsWithin (text : Bytes) : RunsWithin text where
  reached := takeRuns_of_reaches text
  advances := advances_runRound text
  round := by
    intro rounds start pass hreaches
    obtain ⟨hrounds, hstart⟩ := hreaches.position_le (advances_runRound text) (Nat.zero_le _)
    refine ⟨hrounds, hstart, ?_⟩
    intro hinside
    obtain ⟨run, hne, hstop, hle, hslice, -⟩ := exists_run text start hinside
    have hpos := List.length_pos_iff.mpr hne
    rw [hstop, Nat.add_sub_cancel_left]
    exact ⟨Nat.lt_add_of_pos_right hpos, hle, run, hslice, hne⟩
  ends := exists_reaches_end (advances_runRound text) (Nat.zero_le _)
  result := normalize_eq_ok text

/-- Reading the tokens of a line keeps within the line. -/
theorem tokensWithin (line : Bytes) : TokensWithin line where
  start_le := by
    intro i hi
    have hcursor := foldlM_step_eq_ok (line.take i) (line.drop i)
    have hstart := Cursor.start_ofScan_le (line.take i)
    rw [List.take_append_drop, List.length_take, Nat.min_eq_left hi] at hcursor
    rw [List.length_take, Nat.min_eq_left hi] at hstart
    exact ⟨_, hcursor, hstart⟩
  trim := by
    intro segment first hfirst
    rcases Token.isPadding_or_exists_isTrimmed segment with hpad |
      ⟨left, body, right, rfl, hleft, hbody, hright⟩
    · rw [find?_of_isPadding segment hpad] at hfirst
      cases hfirst
    · obtain ⟨hfind, hlast⟩ := find?_of_isTrimmed left body right hleft hbody hright
      have hpos := List.length_pos_iff.mpr hbody.ne_nil
      rw [hfind, Option.some.injEq] at hfirst
      refine ⟨_, hlast, by omega, ?_⟩
      simp only [List.length_append]
      omega
  result := tokens_eq_ok line

/-- Taking the lines of a buffer keeps within the buffer. -/
theorem linesWithin (buffer : Bytes) : LinesWithin buffer where
  reached := takeLines_of_reaches buffer
  advances := advances_lineRound buffer
  round := by
    intro rounds start lines hreaches
    obtain ⟨hrounds, hstart⟩ := hreaches.position_le (advances_lineRound buffer) (Nat.zero_le _)
    exact ⟨hrounds, hstart, bounds_of_find? _ buffer start⟩
  ends := exists_reaches_end (advances_lineRound buffer) (Nat.zero_le _)
  result := cut_eq_ok buffer

/-- Reading a line by position gives what reading it gives, refused lines included. -/
theorem ofLine_eq_ok (line : Bytes) : ofLine line = .ok (Message.ofLine line) := by
  unfold ofLine Message.ofLine Message.arguments
  simp only [normalize_eq_ok, tokens_eq_ok, bind, Except.bind]
  cases harguments : (Token.scan (Message.normalize line)).map Token.text with
  | nil => rfl
  | cons command params =>
    have hminus := minus_of_le (params.length + 1) 1 (Nat.le_add_left 1 _)
    rw [Nat.add_sub_cancel] at hminus
    simp only [List.isEmpty_cons, Bool.false_eq_true, if_false, List.head?_cons, present,
      List.length_cons, hminus, List.drop_succ_cons, List.drop_zero, List.take_length]
    rfl

/-- **Reading by position never leaves its text.** No text makes it slice past the end, subtract a
later position from an earlier one, ask for an element that is not there, or go round more often
than its text has bytes. Each run that is taken is not empty and ends within the text. The open
segment never begins behind the byte that is looked at, and the blank ends of a segment leave its
first and last other byte in order. Each line begins and ends within the buffer. Both loops move on
in every round. What is read is what reading without positions gives. -/
theorem reading_within_bounds :
    (∀ text, RunsWithin text) ∧ (∀ line, TokensWithin line) ∧ (∀ buffer, LinesWithin buffer) ∧
      ∀ line, ofLine line = .ok (Message.ofLine line) :=
  ⟨runsWithin, tokensWithin, linesWithin, ofLine_eq_ok⟩

/-- A text that ends with its last run, which is a single brace. -/
theorem reading_within_bounds_adjacent_braces :
    Reaches (runRound (ofString "A\x7b\x7d")) (0, .fresh) 1 (2, ⟨false, [ofString "a\x7b"]⟩) ∧
      runStop (ofString "A\x7b\x7d") 2 = 3 ∧
      (∃ run, slice (ofString "A\x7b\x7d") 2 (3 - 2) = .ok run ∧ run ≠ []) ∧
      ofLine (ofString "A\x7b\x7d") = .ok (Message.ofLine (ofString "A\x7b\x7d")) := by
  obtain ⟨hruns, -, -, hline⟩ := reading_within_bounds
  have hreaches : Reaches (runRound (ofString "A\x7b\x7d")) (0, .fresh) 1
      (2, ⟨false, [ofString "a\x7b"]⟩) := .next .first (by decide)
  have hstop : runStop (ofString "A\x7b\x7d") 2 = 3 := by decide
  obtain ⟨-, -, hround⟩ := (hruns (ofString "A\x7b\x7d")).round 1 2 _ hreaches
  obtain ⟨-, -, hrun⟩ := hround (by decide)
  rw [hstop] at hrun
  exact ⟨hreaches, hstop, hrun, hline _⟩

end MessageFeed.Position
