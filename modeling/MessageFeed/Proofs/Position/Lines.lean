import MessageFeed.Position
import MessageFeed.Proofs.Framing

/-!
# Lines found by position

A reader by position looks for the next newline, takes what is before it as a line, and goes on
behind it; in the end it takes away, all at once, what it has gone past. In a buffer that is made of
lines and a rest it finds these lines, ends where the rest begins, and never violates a bound
(`takeLines_assemble`). Every buffer is made so, by its own frames, hence reading by position is
cutting (`cut_eq_ok`). With it the two sides of the decoding are put together
(`cut_decodes_assemble`).
-/

set_option autoImplicit false

namespace MessageFeed.Position

open Bytes

/-! ## Checked slices -/

/-- A difference that is not negative does not wrap around. -/
theorem minus_of_le (minuend subtrahend : Nat) (h : subtrahend ≤ minuend) :
    minus minuend subtrahend = .ok (minuend - subtrahend) :=
  if_pos h

/-- The distance from the start to the end of a part is its length. -/
theorem minus_add_left (start length : Nat) : minus (start + length) start = .ok length := by
  rw [minus_of_le _ _ (Nat.le_add_right start length), Nat.add_sub_cancel_left]

/-- A part of a text is the slice that begins where it begins and is as long. -/
theorem slice_append (before part after : Bytes) :
    slice (before ++ part ++ after) before.length part.length = .ok part := by
  have hin : before.length ≤ (before ++ part ++ after).length := by
    simp only [List.length_append]
    omega
  rw [slice, if_pos hin, List.append_assoc, List.drop_left, List.take_left]

/-! ## The next byte of a kind -/

/-- Nothing is found from a position on if no byte there is of the kind. -/
theorem find?_eq_none (kind : UInt8 → Bool) (before after : Bytes)
    (h : ∀ b ∈ after, kind b = false) : find? kind (before ++ after) before.length = none := by
  unfold find?
  rw [List.find?_eq_none]
  intro i _
  rw [Bool.and_eq_true, decide_eq_true_iff, not_and, Bool.not_eq_true]
  intro hi
  rw [List.getElem?_append_right hi]
  cases hget : after[i - before.length]? with
  | none => rfl
  | some b => exact h b (List.mem_of_getElem? hget)

/-- The first byte of a kind is found where it is. -/
theorem find?_eq_some (kind : UInt8 → Bool) (before plain : Bytes) (b : UInt8) (after : Bytes)
    (hplain : ∀ c ∈ plain, kind c = false) (hb : kind b = true) :
    find? kind (before ++ plain ++ b :: after) before.length =
      some (before.length + plain.length) := by
  have hlength : (before ++ plain).length = before.length + plain.length := List.length_append
  unfold find?
  rw [List.find?_range_eq_some]
  refine ⟨?_, ?_, ?_⟩
  · rw [← hlength, List.getElem?_append_right (Nat.le_refl _), Nat.sub_self]
    simp [hb]
  · rw [List.mem_range, List.length_append, hlength, List.length_cons]
    omega
  · intro j hj
    rw [Bool.not_eq_true', Bool.and_eq_false_iff]
    by_cases hbefore : j < before.length
    · left
      rw [decide_eq_false_iff_not]
      omega
    · right
      rw [List.getElem?_append_left (by omega), List.getElem?_append_right (by omega)]
      cases hget : plain[j - before.length]? with
      | none => rfl
      | some c => exact hplain c (List.mem_of_getElem? hget)

/-! ## Lines -/

/-- No byte of a text without newlines is a newline. -/
theorem not_newline_of_not_mem (text : Bytes) (h : newline ∉ text) :
    ∀ b ∈ text, (b == newline) = false := by
  intro b hb
  rw [beq_eq_false_iff_ne]
  rintro rfl
  exact h hb

/-- Behind any bytes, clean frames are taken out of their stream line by line, up to where the rest
begins. -/
theorem takeLines_assemble (before : Bytes) (frames : Frames) (done : List Bytes) (rounds : Nat)
    (h : frames.IsClean) (hrounds : frames.lines.length ≤ rounds) :
    takeLines (before ++ frames.assemble) before.length done rounds =
      .ok ((before ++ frames.assemble).length - frames.rest.length,
        frames.lines.reverse ++ done) := by
  obtain ⟨lines, rest⟩ := frames
  obtain ⟨hlines, hrest⟩ := h
  simp only at hlines hrest hrounds ⊢
  induction lines generalizing before done rounds with
  | nil =>
    have hnone := find?_eq_none (· == newline) before rest (not_newline_of_not_mem rest hrest)
    have hstop : (before ++ rest).length - rest.length = before.length := by
      rw [List.length_append, Nat.add_sub_cancel]
    have hassemble : Frames.assemble ⟨[], rest⟩ = rest := rfl
    rw [hassemble, hstop]
    cases rounds <;> simp [takeLines, hnone]
  | cons line lines ih =>
    obtain ⟨hline, hmore⟩ := List.forall_mem_cons.mp hlines
    obtain ⟨more, rfl⟩ : ∃ more, rounds = more + 1 := by
      rw [List.length_cons] at hrounds
      exact ⟨rounds - 1, by omega⟩
    have hbuffer : before ++ Frames.assemble ⟨line :: lines, rest⟩ =
        before ++ line ++ newline :: Frames.assemble ⟨lines, rest⟩ := by
      simp [Frames.assemble]
    have hfind := find?_eq_some (· == newline) before line newline
      (Frames.assemble ⟨lines, rest⟩) (not_newline_of_not_mem line hline) (by decide)
    have hminus := minus_add_left before.length line.length
    have hslice := slice_append before line (newline :: Frames.assemble ⟨lines, rest⟩)
    -- The next round begins behind the newline, with one line more before it.
    have hnext := ih (before ++ line ++ [newline]) (line :: done) more
      (Nat.le_of_succ_le_succ hrounds) hmore
    have hbehind : before ++ line ++ [newline] ++ Frames.assemble ⟨lines, rest⟩ =
        before ++ line ++ newline :: Frames.assemble ⟨lines, rest⟩ := by simp
    have hstop : (before ++ line ++ [newline]).length = before.length + line.length + 1 := by
      simp only [List.length_append, List.length_singleton]
    have hdone : (line :: lines).reverse ++ done = lines.reverse ++ line :: done := by simp
    rw [hbehind, hstop] at hnext
    rw [hbuffer, hdone, takeLines, hfind]
    simp only [hminus, hslice, bind, Except.bind, hnext]

/-- Clean frames are taken out of their stream by position. -/
theorem cut_assemble_eq_ok (frames : Frames) (h : frames.IsClean) :
    cut frames.assemble = .ok frames := by
  have hrounds : frames.lines.length ≤ frames.assemble.length := by
    rw [← Frames.count_newline_assemble frames h]
    exact List.count_le_length
  have htake := takeLines_assemble [] frames [] frames.assemble.length h hrounds
  obtain ⟨lines, rest⟩ := frames
  obtain ⟨front, hfront⟩ : ∃ front, Frames.assemble ⟨lines, rest⟩ = front ++ rest := ⟨_, rfl⟩
  have hlength : (front ++ rest).length = front.length + rest.length := List.length_append
  have hminus := minus_add_left front.length rest.length
  have hslice := slice_append front rest []
  rw [List.nil_append, List.length_nil, hfront, hlength, Nat.add_sub_cancel] at htake
  rw [List.append_nil] at hslice
  unfold cut
  simp only [hfront, hlength, htake, hminus, hslice, bind, Except.bind, pure, Except.pure,
    List.append_nil, List.reverse_reverse]

/-- Reading by position takes out of a buffer what cutting takes out, and violates no bound. -/
theorem cut_eq_ok (buffer : Bytes) : cut buffer = .ok (Frames.cut buffer) := by
  have hcut := cut_assemble_eq_ok (Frames.cut buffer) (Frames.isClean_cut buffer)
  rwa [Frames.assemble_cut] at hcut

end MessageFeed.Position

namespace MessageFeed.Frames

open Bytes

/-- **Cutting is a decoding.** What is cut out of a buffer is clean and, written again, the buffer;
and frames are found again in their own stream if and only if they are clean. So cutting and
assembling are inverse to each other between all buffers and all clean frames. Cutting the rest
again brings no line and leaves the rest as it is. A reader that works by position and takes
everything away at the end does all of this as well, without a violation. -/
theorem cut_decodes_assemble :
    (∀ buffer, (cut buffer).IsClean ∧ (cut buffer).assemble = buffer) ∧
    (∀ frames : Frames, frames.IsClean ↔ cut frames.assemble = frames) ∧
    (∀ buffer, cut (cut buffer).rest = ⟨[], (cut buffer).rest⟩) ∧
    ∀ buffer, Position.cut buffer = .ok (cut buffer) := by
  refine ⟨?_, ?_, ?_, Position.cut_eq_ok⟩
  · intro buffer
    exact ⟨isClean_cut buffer, assemble_cut buffer⟩
  · intro frames
    constructor
    · exact cut_assemble frames
    · intro h
      rw [← h]
      exact isClean_cut frames.assemble
  · intro buffer
    exact cut_of_not_mem (cut buffer).rest (isClean_cut buffer).rest

/-- Empty lines, a carriage return and a zero byte come back as they were. -/
example : cut (assemble ⟨[[], [13], [0, 125]], [44]⟩) = ⟨[[], [13], [0, 125]], [44]⟩ := by decide

end MessageFeed.Frames
