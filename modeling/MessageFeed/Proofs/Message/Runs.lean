import MessageFeed.Proofs.Message.Normal
import Mathlib.Data.List.TakeWhile

/-!
# Run by run is byte by byte

The first run of a text goes up to its first brace, and the other runs are the runs of what is
behind it (`runs_of_ne_nil`), so every run is the first run of what is left of the text when it is
taken (`eq_firstRun`). The pass takes them one by one, and before each of them nothing is to be kept
as it stands (`foldl_take_runs`). So no run is ever taken but by folding it, and the normal text is
made byte by byte (`normalize_byte_by_byte`).
-/

set_option autoImplicit false

namespace MessageFeed.Message

open Bytes

/-- What a byte comes to in normal text: nothing if it breaks a line, its small letter if it is a
capital letter, and otherwise itself. -/
def normalByte? (b : UInt8) : Option UInt8 :=
  if b = newline ∨ b = carriageReturn then none
  else if 65 ≤ b ∧ b ≤ 90 then some (b + 32)
  else some b

/-- A text up to and with its first brace, or all of it if there is none. -/
def firstRun (text : Bytes) : Bytes :=
  (text.takeWhile fun b => !isBrace b) ++ (text.dropWhile fun b => !isBrace b).take 1

/-! ## The runs -/

/-- Bytes of which only the last can be a brace are one run. -/
theorem runs_concat (plain : Bytes) (last : UInt8) (h : ∀ b ∈ plain, isBrace b = false) :
    runs (plain ++ [last]) = [plain ++ [last]] := by
  have hpairwise : (plain ++ [last]).Pairwise fun b _ => (!isBrace b) = true := by
    rw [List.pairwise_append]
    refine ⟨List.pairwise_of_forall_mem_list ?_, List.pairwise_singleton _ _, ?_⟩
    · intro b hb _ _
      rw [h b hb, Bool.not_false]
    · intro b hb _ _
      rw [h b hb, Bool.not_false]
  exact List.splitBy_of_isChain (by simp) hpairwise.isChain

/-- A brace ends a run. -/
theorem runs_append_brace (plain : Bytes) (brace : UInt8) (rest : Bytes)
    (h : ∀ b ∈ plain, isBrace b = false) (hbrace : isBrace brace = true) :
    runs (plain ++ brace :: rest) = (plain ++ [brace]) :: runs rest := by
  have hsplit : plain ++ brace :: rest = (plain ++ [brace]) ++ rest := by simp
  have hfirst : runs (plain ++ [brace]) = [plain ++ [brace]] := runs_concat plain brace h
  unfold runs at hfirst ⊢
  rw [hsplit, List.splitBy_append (by simp [hbrace]), hfirst, List.singleton_append]

/-- The first run of a text is all of it, or what there is up to and with its first brace. -/
theorem firstRun_eq_or_exists (text : Bytes) :
    ((∀ b ∈ text, isBrace b = false) ∧ firstRun text = text) ∨
      ∃ plain brace rest, text = plain ++ brace :: rest ∧ (∀ b ∈ plain, isBrace b = false) ∧
        isBrace brace = true ∧ firstRun text = plain ++ [brace] := by
  cases hfind : text.find? isBrace with
  | none =>
    have hplain : ∀ b ∈ text, isBrace b = false := by simpa using hfind
    refine .inl ⟨hplain, ?_⟩
    unfold firstRun
    rw [List.takeWhile_eq_self_iff.mpr (by simpa using hplain),
      List.dropWhile_eq_nil_iff.mpr (by simpa using hplain)]
    simp
  | some brace =>
    obtain ⟨hbrace, plain, rest, rfl, hplain⟩ := List.find?_eq_some_iff_append.mp hfind
    refine .inr ⟨plain, brace, rest, rfl, by simpa using hplain, hbrace, ?_⟩
    unfold firstRun
    rw [List.takeWhile_append_of_pos hplain, List.dropWhile_append_of_pos hplain]
    simp [hbrace]

/-- The first run of a text, and then the runs of what is behind it. -/
theorem runs_of_ne_nil (text : Bytes) (h : text ≠ []) :
    runs text = firstRun text :: runs (text.drop (firstRun text).length) := by
  rcases firstRun_eq_or_exists text with ⟨hplain, hwhole⟩ |
    ⟨plain, brace, rest, rfl, hplain, hbrace, hfirst⟩
  · obtain ⟨init, last, rfl⟩ := (List.eq_nil_or_concat' text).resolve_left h
    have hinit : ∀ b ∈ init, isBrace b = false := fun b hb => hplain b (List.mem_append_left _ hb)
    rw [hwhole, List.drop_length, runs_concat init last hinit]
    rfl
  · have hrest : (plain ++ brace :: rest).drop (plain ++ [brace]).length = rest := by
      rw [List.append_cons plain brace rest, List.drop_left]
    rw [hfirst, hrest, runs_append_brace plain brace rest hplain hbrace]

/-- Runs that are left over are the runs of the text that is left over. -/
theorem runs_flatten_of_append (text : Bytes) (before after : List Bytes)
    (h : runs text = before ++ after) : runs after.flatten = after := by
  obtain ⟨-, hne, hchain, hjoin⟩ := List.splitBy_eq_iff.mp h
  apply List.splitBy_flatten
  · exact fun hnil => hne (List.mem_append_right _ hnil)
  · exact fun run hrun => hchain run (List.mem_append_right _ hrun)
  · exact hjoin.right_of_append

/-- Each run is the first run of what is left of the text when it is taken. -/
theorem eq_firstRun (text run : Bytes) (before after : List Bytes)
    (h : runs text = before ++ run :: after) : run = firstRun (run ++ after.flatten) := by
  have hleft := runs_flatten_of_append text before (run :: after) h
  rw [List.flatten_cons] at hleft
  have hne : run ++ after.flatten ≠ [] := by
    intro hnil
    rw [hnil] at hleft
    cases hleft
  rw [runs_of_ne_nil _ hne] at hleft
  exact (List.cons.inj hleft).1.symm

/-! ## The pass -/

/-- Whatever runs of a text were taken, nothing is to be kept as it stands. -/
theorem foldl_take_runs (text : Bytes) (before after : List Bytes)
    (h : runs text = before ++ after) :
    before.foldl Pass.take Pass.fresh = ⟨false, (before.map fold).reverse⟩ := by
  have hbefore : ∀ run ∈ before, isEnclosed run = false := by
    intro run hrun
    apply isEnclosed_eq_false_of_mem_runs text
    rw [h]
    exact List.mem_append_left _ hrun
  rw [Pass.fresh, foldl_take_of_not_enclosed before [] hbefore, List.append_nil]

/-- A text is folded byte by byte. -/
theorem fold_eq_filterMap (text : Bytes) : fold text = text.filterMap normalByte? := by
  induction text with
  | nil => rfl
  | cons b text ih =>
    rw [List.filterMap_cons, ← ih]
    unfold normalByte?
    by_cases hbreak : b = newline ∨ b = carriageReturn
    · rw [if_pos hbreak]
      rcases hbreak with rfl | rfl <;> rfl
    · have hkept : isLineBreak b = false := by simpa [isLineBreak] using hbreak
      rw [if_neg hbreak]
      by_cases hcapital : 65 ≤ b ∧ b ≤ 90
      · simp [fold, hkept, lower, hcapital]
      · simp [fold, hkept, lower, hcapital]

/-- **Normal text is made byte by byte.** Taking a text run by run leaves out its line breaks and
lowers its letters, and keeps every other byte in its place, whatever its braces. Whenever a run is
taken, which is what is left of the text up to and with the next brace, it is not enclosed, as it is
a single brace if it begins with an opening one; and the pass is not to keep it as it stands for the
run before it. So it is folded, and no part of a message keeps a capital letter or a line break. -/
theorem normalize_byte_by_byte (text : Bytes) :
    normalize text = text.filterMap normalByte? ∧
    (∀ before run after, runs text = before ++ run :: after →
      run = firstRun (run ++ after.flatten) ∧
      (run.head? = some openBrace → run = [openBrace]) ∧
      isEnclosed run = false ∧ (before.foldl Pass.take Pass.fresh).verbatim = false ∧
      (before.foldl Pass.take Pass.fresh).take run =
        ⟨false, fold run :: (before.foldl Pass.take Pass.fresh).done⟩) ∧
    ∀ b ∈ normalize text, IsNormal b := by
  have hfold := normalize_eq_fold text
  refine ⟨?_, ?_, ?_⟩
  · rw [hfold, fold_eq_filterMap]
  · intro before run after h
    have hmem : run ∈ runs text := by
      rw [h]
      exact List.mem_append_right _ List.mem_cons_self
    have henclosed := isEnclosed_eq_false_of_mem_runs text run hmem
    rw [foldl_take_runs text before (run :: after) h]
    refine ⟨eq_firstRun text run before after h, eq_openBrace_of_mem_runs text run hmem, henclosed,
      rfl, ?_⟩
    simp [Pass.take, Pass.takeAs, henclosed]
  · rw [hfold]
    exact isNormal_of_mem_fold text

/-- A pair of adjacent braces with text around it: the brace that opens is not in the run of the one
that closes. -/
theorem normalize_byte_by_byte_adjacent :
    runs (ofString "A\x7b\x7dB\nC") =
        [ofString "A\x7b"] ++ ofString "\x7d" :: [ofString "B\nC"] ∧
      isEnclosed (ofString "\x7d") = false ∧
      ([ofString "A\x7b"].foldl Pass.take Pass.fresh).verbatim = false ∧
      normalize (ofString "A\x7b\x7dB\nC") = ofString "a\x7b\x7dbc" := by
  have hruns : runs (ofString "A\x7b\x7dB\nC") =
      [ofString "A\x7b"] ++ ofString "\x7d" :: [ofString "B\nC"] := by decide
  obtain ⟨hbytes, htaken, -⟩ := normalize_byte_by_byte (ofString "A\x7b\x7dB\nC")
  obtain ⟨-, -, henclosed, hverbatim, -⟩ := htaken _ _ _ hruns
  exact ⟨hruns, henclosed, hverbatim, hbytes.trans (by decide)⟩

end MessageFeed.Message
