import MessageFeed.Message.Disguise
import MessageFeed.Message.Normal
import Mathlib.Data.List.SplitBy

/-!
# Normal text is folded text

A run has no brace before its end, so a run that begins with an opening brace is that brace alone
and does not end with a closing one. No run is enclosed, hence none is kept as it stands, and the
pass over the runs drops line breaks and lowers letters everywhere (`normalize_eq_fold`).

The rest is about `fold`: which bytes it leaves, which texts it leaves alone, and that it undoes
disguises (`fold_eq_of_disguised`).
-/

set_option autoImplicit false

namespace MessageFeed

namespace Bytes

/-- A byte as normal text has them: neither a capital letter nor a line break. -/
structure IsNormal (b : UInt8) : Prop where
  not_capital : b < 65 ∨ 90 < b
  not_carriageReturn : b ≠ carriageReturn
  not_newline : b ≠ newline

/-- Lowering makes no line break and takes none away. -/
@[simp] theorem isLineBreak_lower (b : UInt8) : isLineBreak (lower b) = isLineBreak b := by
  simp only [isLineBreak, lower]
  grind

/-- A normal byte is lowered already. -/
theorem lower_of_isNormal (b : UInt8) (h : IsNormal b) : lower b = b := by
  have hcapital := h.not_capital
  simp only [lower]
  grind

/-- A normal byte is no line break. -/
theorem isLineBreak_of_isNormal (b : UInt8) (h : IsNormal b) : isLineBreak b = false := by
  simp [isLineBreak, h.not_newline, h.not_carriageReturn]

/-- A byte that is no line break is normal once it is lowered. -/
theorem isNormal_lower (b : UInt8) (h : isLineBreak b = false) : IsNormal (lower b) := by
  have hlower : isLineBreak (lower b) = false := by rw [isLineBreak_lower, h]
  simp only [isLineBreak, Bool.or_eq_false_iff, beq_eq_false_iff_ne] at hlower
  refine ⟨?_, hlower.2, hlower.1⟩
  simp only [lower]
  grind

end Bytes

namespace Message

open Bytes

/-! ## No run is enclosed -/

/-- A run that begins with an opening brace is that brace alone. -/
theorem eq_openBrace_of_mem_runs (text run : Bytes) (h : run ∈ runs text)
    (hhead : run.head? = some openBrace) : run = [openBrace] := by
  cases run with
  | nil => cases hhead
  | cons a run =>
    obtain rfl : a = openBrace := by simpa using hhead
    cases run with
    | nil => rfl
    | cons b more =>
      have hopen : (!isBrace openBrace) = true :=
        (List.isChain_cons_cons.mp (List.isChain_of_mem_splitBy h)).1
      exact absurd hopen (by decide)

/-- No run of a text is enclosed in braces. -/
theorem isEnclosed_eq_false_of_mem_runs (text run : Bytes) (h : run ∈ runs text) :
    isEnclosed run = false := by
  by_cases hhead : run.head? = some openBrace
  · rw [eq_openBrace_of_mem_runs text run h hhead]
    rfl
  · simp [isEnclosed, hhead]

/-- A pass that keeps nothing as it stands folds the runs that are not enclosed. -/
theorem foldl_take_of_not_enclosed (rest : List Bytes) (done : List Bytes)
    (h : ∀ run ∈ rest, isEnclosed run = false) :
    rest.foldl Pass.take ⟨false, done⟩ = ⟨false, (rest.map fold).reverse ++ done⟩ := by
  induction rest generalizing done with
  | nil => rfl
  | cons run rest ih =>
    have hrun : Pass.take ⟨false, done⟩ run = ⟨false, fold run :: done⟩ := by
      simp [Pass.take, Pass.takeAs, h run (by simp)]
    rw [List.foldl_cons, hrun, ih _ fun r hr => h r (List.mem_cons_of_mem run hr)]
    simp

/-- Folding goes byte by byte. -/
@[simp] theorem fold_append (a b : Bytes) : fold (a ++ b) = fold a ++ fold b := by
  simp [fold]

/-- Folding the parts of a text folds the text. -/
theorem flatten_map_fold (parts : List Bytes) : (parts.map fold).flatten = fold parts.flatten := by
  induction parts with
  | nil => rfl
  | cons part parts ih => simp [ih]

/-- **Normal text is the text without line breaks and with small letters**, whatever its braces. -/
theorem normalize_eq_fold (text : Bytes) : normalize text = fold text := by
  have hpass := foldl_take_of_not_enclosed (runs text) [] (isEnclosed_eq_false_of_mem_runs text)
  have hflatten : (runs text).flatten = text := List.flatten_splitBy _ text
  rw [normalize, Pass.fresh, hpass, Pass.text]
  simp only [List.append_nil, List.reverse_reverse, flatten_map_fold, hflatten]

/-! ## Folded text -/

/-- All bytes of a folded text are normal. -/
theorem isNormal_of_mem_fold (text : Bytes) (b : UInt8) (h : b ∈ fold text) : IsNormal b := by
  obtain ⟨c, hc, rfl⟩ := List.mem_map.mp h
  have hbreak : isLineBreak c = false := by simpa using (List.mem_filter.mp hc).2
  exact isNormal_lower c hbreak

/-- A text of normal bytes is folded to itself. -/
theorem fold_of_isNormal (text : Bytes) (h : ∀ b ∈ text, IsNormal b) : fold text = text := by
  have hkept : (text.filter fun b => !isLineBreak b) = text := by
    rw [List.filter_eq_self]
    intro b hb
    simp [isLineBreak_of_isNormal b (h b hb)]
  have hlower : text.map lower = text.map id :=
    List.map_congr_left fun b hb => lower_of_isNormal b (h b hb)
  rw [fold, hkept, hlower, List.map_id]

/-- Folding a text twice is folding it once. -/
theorem fold_fold (text : Bytes) : fold (fold text) = fold text :=
  fold_of_isNormal (fold text) (isNormal_of_mem_fold text)

/-- A disguise of a line folds to the same text as the line. -/
theorem fold_eq_of_disguised (plain line : Bytes) (h : Disguised plain line) :
    fold line = fold plain := by
  induction h with
  | nil => rfl
  | @keep b c plain line same _ ih =>
    have hbreak : isLineBreak c = isLineBreak b := by
      rw [← isLineBreak_lower c, same, isLineBreak_lower]
    have hhead : fold [c] = fold [b] := by
      cases hb : isLineBreak b <;> simp [fold, hbreak, hb, same]
    rw [← List.singleton_append, fold_append, ← List.singleton_append (l := plain), fold_append,
      hhead, ih]
  | @breakLine b plain line isBreak _ ih =>
    rw [← ih]
    simp [fold, isBreak]

end Message

end MessageFeed
