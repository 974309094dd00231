import MessageFeed.Message.Basic
import MessageFeed.Proofs.Message.Normal
import MessageFeed.Proofs.Token.Layout

/-!
# Arguments of a folded line

Folding changes no brace and no comma, and every byte that it drops is blank. So it makes padding
out of padding and a token out of a token, and the folded line is laid out as the line was, with
each token folded (`exists_laidOut_map_fold`). The scan finds the layout of either, hence it finds
as many tokens before normalizing as after it (`map_text_scan_normalize`). Nor does folding change
what a word takes the depth at a comma to be (`tellsTop_fold_iff`).
-/

set_option autoImplicit false

namespace MessageFeed

/-! ## One byte -/

namespace Bytes

/-- Lowering a byte keeps it blank or not blank. -/
@[simp] theorem isBlank_lower (b : UInt8) : isBlank (lower b) = isBlank b := by
  simp only [isBlank, lower]
  grind

/-- A line break is blank. -/
theorem isBlank_of_isLineBreak (b : UInt8) (h : isLineBreak b = true) : isBlank b = true := by
  simp only [isLineBreak, Bool.or_eq_true, beq_iff_eq] at h
  rcases h with rfl | rfl <;> decide

/-- A byte that is not blank is no line break. -/
theorem isLineBreak_of_isBlank_eq_false (b : UInt8) (h : isBlank b = false) :
    isLineBreak b = false := by
  by_contra hbreak
  rw [Bool.not_eq_false] at hbreak
  rw [isBlank_of_isLineBreak b hbreak] at h
  cases h

/-- Only letters are lowered, and to letters, so a byte is no other byte's small letter. -/
theorem lower_eq_iff (b c : UInt8) (h : c < 97 ∨ 122 < c) (hlow : c < 65 ∨ 90 < c) :
    lower b = c ↔ b = c := by
  simp only [lower]
  grind

/-- Lowering a byte makes no brace and takes none away. -/
theorem net_lower (b : UInt8) : net [lower b] = net [b] := by
  have hopen := lower_eq_iff b openBrace (by decide) (by decide)
  have hclose := lower_eq_iff b closeBrace (by decide) (by decide)
  simp only [net, List.count_singleton, beq_iff_eq, hopen, hclose]

end Bytes

namespace Message

open Bytes
open Token (LaidOut IsPadding IsTrimmed IsToken TellsTop)

/-! ## Folding a text -/

/-- A byte that is no line break is lowered. -/
theorem fold_cons_of_not_lineBreak (b : UInt8) (text : Bytes) (h : isLineBreak b = false) :
    fold (b :: text) = lower b :: fold text := by
  simp [fold, h]

/-- A comma is folded to itself. -/
theorem fold_comma_cons (rest : Bytes) : fold (comma :: rest) = comma :: fold rest :=
  fold_cons_of_not_lineBreak comma rest (by decide)

/-- Folding a text keeps what it leaves open. -/
theorem net_fold (text : Bytes) : net (fold text) = net text := by
  induction text with
  | nil => rfl
  | cons b text ih =>
    by_cases hbreak : isLineBreak b = true
    · have hpad : net [b] = 0 := by
        apply Token.net_of_isPadding
        intro c hc
        rw [List.mem_singleton.mp hc]
        exact isBlank_of_isLineBreak b hbreak
      have hfold : fold (b :: text) = fold text := by simp [fold, hbreak]
      rw [hfold, ih, net_cons, hpad, Int.zero_add]
    · rw [Bool.not_eq_true] at hbreak
      rw [fold_cons_of_not_lineBreak b text hbreak, net_cons, net_lower, ih, ← net_cons]

/-- Padding is folded to padding. -/
theorem isPadding_fold (pad : Bytes) (h : IsPadding pad) : IsPadding (fold pad) := by
  intro b hb
  obtain ⟨c, hc, rfl⟩ := List.mem_map.mp hb
  rw [isBlank_lower]
  exact h c (List.mem_filter.mp hc).1

/-- A comma of a folded text was a comma of the text, and what is before it was folded. -/
theorem exists_of_fold_eq_append_comma (text before after : Bytes)
    (h : fold text = before ++ comma :: after) :
    ∃ front back, text = front ++ comma :: back ∧ fold front = before := by
  obtain ⟨kept, others, hkept, hbefore, hothers⟩ := List.map_eq_append_iff.mp h
  obtain ⟨b, more, rfl, hb, -⟩ := List.map_eq_cons_iff.mp hothers
  rw [lower_eq_iff b comma (by decide) (by decide)] at hb
  subst hb
  obtain ⟨front, back, rfl, hfront, hback⟩ := List.filter_eq_append_iff.mp hkept
  obtain ⟨dropped, rest, rfl, hdropped, -, -⟩ := List.filter_eq_cons_iff.mp hback
  refine ⟨front ++ dropped, rest, by simp, ?_⟩
  have hnone : dropped.filter (fun b => !isLineBreak b) = [] := List.filter_eq_nil_iff.mpr hdropped
  rw [fold_append]
  simp [fold, hfront, hbefore, hnone]

/-- The ends of a trimmed text stay, lowered. -/
theorem isTrimmed_fold (text : Bytes) (h : IsTrimmed text) : IsTrimmed (fold text) := by
  obtain ⟨first, more, hcons⟩ := List.exists_cons_of_ne_nil h.ne_nil
  obtain ⟨front, last, hconcat⟩ := (List.eq_nil_or_concat' text).resolve_left h.ne_nil
  have hfirst : isBlank first = false := h.head_not_blank first (by rw [hcons]; rfl)
  have hlast : isBlank last = false := h.last_not_blank last (by rw [hconcat]; simp)
  have hhead : fold text = lower first :: fold more := by
    rw [hcons, fold_cons_of_not_lineBreak _ _ (isLineBreak_of_isBlank_eq_false first hfirst)]
  have htail : fold text = fold front ++ [lower last] := by
    rw [hconcat, fold_append,
      fold_cons_of_not_lineBreak _ _ (isLineBreak_of_isBlank_eq_false last hlast)]
    rfl
  refine ⟨?_, ?_, ?_⟩
  · rw [hhead]
    exact List.cons_ne_nil _ _
  · intro b hb
    rw [hhead, List.head?_cons] at hb
    rw [← Option.some.inj hb, isBlank_lower, hfirst]
  · intro b hb
    rw [htail, List.getLast?_concat] at hb
    rw [← Option.some.inj hb, isBlank_lower, hlast]

/-- A folded text closes what it opens if the text does. -/
theorem closes_fold_iff (period : Nat) (text : Bytes) :
    Closes period (fold text) ↔ Closes period text := by
  rw [Closes, Closes, net_fold]

/-- A token is folded to a token. -/
theorem isToken_fold (period : Nat) (text : Bytes) (h : IsToken period text) :
    IsToken period (fold text) where
  toIsTrimmed := isTrimmed_fold text h.toIsTrimmed
  no_top_comma := by
    intro before after hsplit
    obtain ⟨front, back, htext, rfl⟩ := exists_of_fold_eq_append_comma text before after hsplit
    rw [closes_fold_iff]
    exact h.no_top_comma front back htext

/-- A folded line is told right if the line is. -/
theorem tellsTop_fold_iff (line : Bytes) : TellsTop (fold line) ↔ TellsTop line := by
  constructor
  · rintro h before after rfl hclosed
    rw [← net_fold]
    apply h (fold before) (fold after)
    · rw [fold_append, fold_comma_cons]
    · exact (closes_fold_iff _ before).mpr hclosed
  · intro h before after hsplit hclosed
    obtain ⟨front, back, hline, rfl⟩ := exists_of_fold_eq_append_comma line before after hsplit
    rw [net_fold]
    exact h front back hline ((closes_fold_iff _ front).mp hclosed)

/-! ## Folding a line -/

/-- The tokens laid out in a line are laid out in the folded line, folded and at other offsets. -/
theorem exists_laidOut_map_fold (period start start' : Nat) (tokens : List Token) (line : Bytes)
    (h : LaidOut period start tokens line) :
    ∃ folded, LaidOut period start' folded (fold line) ∧
      folded.map Token.text = tokens.map fun token => fold token.text := by
  induction h generalizing start' with
  | @padding start pad blank => exact ⟨[], .padding (isPadding_fold pad blank), rfl⟩
  | @last start left text right blank_left token blank_right =>
    rw [fold_append, fold_append]
    exact ⟨_, .last (isPadding_fold left blank_left) (isToken_fold period text token)
      (isPadding_fold right blank_right), rfl⟩
  | @skip start tokens pad rest blank _ ih =>
    obtain ⟨folded, hfolded, htexts⟩ := ih (start' + (fold pad).length + 1)
    rw [fold_append, fold_comma_cons]
    exact ⟨folded, .skip (isPadding_fold pad blank) hfolded, htexts⟩
  | @next start tokens left text right rest blank_left token closed blank_right _ ih =>
    obtain ⟨folded, hfolded, htexts⟩ :=
      ih (start' + (fold left).length + (fold text).length + (fold right).length + 1)
    rw [fold_append, fold_comma_cons, fold_append, fold_append]
    refine ⟨_, .next (isPadding_fold left blank_left) (isToken_fold period text token)
      ((closes_fold_iff period text).mpr closed) (isPadding_fold right blank_right) hfolded, ?_⟩
    rw [List.map_cons, htexts, List.map_cons]

/-- **Normalizing a line normalizes its arguments.** The tokens of the normal text of a line are
the normal texts of the tokens of the line, one for one and in the same order. -/
theorem map_text_scan_normalize (line : Bytes) :
    (Token.scan (normalize line)).map Token.text =
      (Token.scan line).map fun token => normalize token.text := by
  obtain ⟨folded, hfolded, htexts⟩ :=
    exists_laidOut_map_fold _ 0 0 _ line (Token.laidOut_scan line)
  have hscan : Token.scan (fold line) = folded := (Token.scan_eq_iff_laidOut _ _).mpr hfolded
  simp only [normalize_eq_fold]
  rw [hscan, htexts]

end Message

end MessageFeed
