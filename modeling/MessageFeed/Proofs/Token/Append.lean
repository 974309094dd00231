import MessageFeed.Proofs.Token.Pieces

/-!
# Tokens of a line that goes on

A comma behind a text that closes what it opens is on the top level, so it parts the tokens of the
text from those of what comes behind it (`scan_append_comma`). Every text that is not quiet has such
a comma with only quiet bytes behind it, its last one on the top level
(`isQuiet_or_exists_last_top_comma`). The tokens before that comma are the closed ones, and no bytes
put behind the text can change them.

A word may take more commas to be on the top level than are, and so more tokens are closed for it.
Those that are closed by a top-level comma proper come first among them
(`closedTokens_zero_prefix`).
-/

set_option autoImplicit false

namespace MessageFeed.Token

open Bytes

/-- A token that begins further on in its line, by a distance. -/
def moved (distance : Nat) (token : Token) : Token :=
  { token with offset := token.offset + distance }

/-- The tokens of a text that are closed: a comma on the top level of the text comes behind them. -/
def closedTokens (period : Nat) (text : Bytes) : List Token :=
  (scan text).filter fun t => ∃ i ∈ topCommas period text, t.offset + t.text.length ≤ i

variable {period : Nat}

/-! ## Texts that begin further on -/

/-- The token of a segment that begins further on is the same token, further on. -/
theorem ofSegment?_moved (start distance : Nat) (segment : Bytes) :
    ofSegment? (start + distance) segment = (ofSegment? start segment).map (moved distance) := by
  unfold ofSegment?
  split
  · rfl
  · simp only [Option.map_some, moved, Nat.add_right_comm]

/-- The tokens of the pieces of a text that begins further on are the same tokens, further on. -/
theorem ofPiecesFrom_moved (start distance : Nat) (text : Bytes) :
    ofPiecesFrom period (start + distance) text =
      (ofPiecesFrom period start text).map (moved distance) := by
  unfold ofPiecesFrom
  rw [List.map_filterMap]
  apply List.filterMap_congr
  intro piece _
  rw [Nat.add_right_comm, ofSegment?_moved]

/-! ## Before and behind a top-level comma -/

/-- A quiet line has at most one token. -/
theorem scan_of_isQuiet (text : Bytes) (h : IsQuiet Int32.size 0 text) :
    scan text = (ofSegment? 0 text).toList := by
  rw [scan_eq_ofPieces, ofPieces_eq, ofPiecesFrom_of_isQuiet text 0 h]

/-- A token is found alone in a line of its own. -/
theorem scan_of_isToken (text : Bytes) (h : IsToken Int32.size text) : scan text = [⟨0, text⟩] := by
  have hlaid : LaidOut Int32.size 0 _ ([] ++ text ++ []) := .last isPadding_nil h isPadding_nil
  rw [scan_eq_iff_laidOut]
  simpa using hlaid

/-- The pieces of a text that closes what it opens are the first pieces of the line, and those of
what is behind the comma are the others. -/
theorem ofPiecesFrom_append_comma (a b : Bytes) (start : Nat) (hclosed : Closes period a) :
    ofPiecesFrom period start (a ++ comma :: b) =
      ofPiecesFrom period start a ++ ofPiecesFrom period (start + a.length + 1) b := by
  induction a using segment_induction period generalizing start with
  | quiet a h => rw [ofPiecesFrom_segment a b start h hclosed, ofPiecesFrom_of_isQuiet a start h]
  | segment front a h hfront ih =>
    -- The first segment of the text is the first of the whole line too.
    have hback : Closes period a := (closes_append_comma_iff front a hfront).mp hclosed
    have hlength : start + (front ++ comma :: a).length + 1 =
        start + front.length + 1 + a.length + 1 := by
      rw [length_append_comma]
      omega
    rw [hlength, List.append_assoc, List.cons_append, ofPiecesFrom_segment front _ start h hfront,
      ofPiecesFrom_segment front a start h hfront, ih _ hback, List.append_assoc]

/-- The tokens of a text that closes what it opens, and behind a comma those of any other text. -/
theorem scan_append_comma (a b : Bytes) (hclosed : Closes Int32.size a) :
    scan (a ++ comma :: b) = scan a ++ (scan b).map (moved (a.length + 1)) := by
  simp only [scan_eq_ofPieces, ofPieces_eq]
  rw [ofPiecesFrom_append_comma a b 0 hclosed, ← ofPiecesFrom_moved, Nat.add_assoc]

/-- A text is quiet, or it has a last comma on the top level. -/
theorem isQuiet_or_exists_last_top_comma (period : Nat) (text : Bytes) :
    IsQuiet period 0 text ∨
      ∃ a b, text = a ++ comma :: b ∧ Closes period a ∧ IsQuiet period 0 b := by
  induction text using segment_induction period with
  | quiet text h => exact .inl h
  | segment a b _ hclosed ih =>
    rcases ih with hquiet | ⟨front, back, rfl, hfront, hback⟩
    · exact .inr ⟨a, b, rfl, hclosed, hquiet⟩
    · refine .inr ⟨a ++ comma :: front, back, by simp, ?_, hback⟩
      exact (closes_append_comma_iff a front hclosed).mpr hfront

/-! ## Closed tokens -/

/-- A quiet text has no closed tokens. -/
theorem closedTokens_of_isQuiet (text : Bytes) (h : IsQuiet period 0 text) :
    closedTokens period text = [] := by
  unfold closedTokens
  rw [topCommas_of_isQuiet text h]
  simp

/-- The closed tokens of a text are the tokens before its last top-level comma. -/
theorem closedTokens_append_comma (a b : Bytes) (hclosed : Closes Int32.size a)
    (h : IsQuiet Int32.size 0 b) : closedTokens Int32.size (a ++ comma :: b) = scan a := by
  have hbefore : ∀ t ∈ scan a, ∃ i ∈ topCommas Int32.size (a ++ comma :: b),
      t.offset + t.text.length ≤ i := by
    intro t ht
    have hwithin := ((accounts_scan a).within t ht).2
    refine ⟨a.length, ?_, by omega⟩
    rw [mem_topCommas_iff]
    exact isTopComma_append_length a b hclosed
  have hbehind : ∀ t ∈ (scan b).map (moved (a.length + 1)),
      ¬ ∃ i ∈ topCommas Int32.size (a ++ comma :: b), t.offset + t.text.length ≤ i := by
    rintro t ht ⟨i, hi, hle⟩
    obtain ⟨u, -, rfl⟩ := List.mem_map.mp ht
    simp only [moved] at hle
    obtain ⟨j, rfl⟩ : ∃ j, i = a.length + 1 + j := ⟨i - (a.length + 1), by omega⟩
    rw [mem_topCommas_iff, isTopComma_append_right a b j hclosed] at hi
    exact not_isTopComma_of_isQuiet b j h hi
  unfold closedTokens
  rw [scan_append_comma a b hclosed, List.filter_append,
    List.filter_eq_self.mpr (by simpa using hbefore),
    List.filter_eq_nil_iff.mpr (by simpa using hbehind), List.append_nil]

/-- Filtering keeps the first elements of a list if nothing is kept behind what is not. -/
theorem filter_prefix_of_pairwise {α : Type} (keep : α → Bool) (list : List α)
    (h : list.Pairwise fun x y => keep y = true → keep x = true) : list.filter keep <+: list := by
  induction list with
  | nil => exact List.nil_prefix
  | cons x list ih =>
    obtain ⟨hx, hlist⟩ := List.pairwise_cons.mp h
    by_cases hkeep : keep x = true
    · rw [List.filter_cons_of_pos hkeep]
      exact List.cons_prefix_cons.mpr ⟨rfl, ih hlist⟩
    · have hnone : list.filter keep = [] :=
        List.filter_eq_nil_iff.mpr fun y hy hykeep => hkeep (hx y hy hykeep)
      rw [List.filter_cons_of_neg hkeep, hnone]
      exact List.nil_prefix

/-- The tokens that are closed by a top-level comma are the first of those that are closed for
words. -/
theorem closedTokens_zero_prefix (text : Bytes) :
    closedTokens 0 text <+: closedTokens Int32.size text := by
  have hcloses : ∀ t : Token, (∃ i ∈ topCommas 0 text, t.offset + t.text.length ≤ i) →
      ∃ i ∈ topCommas Int32.size text, t.offset + t.text.length ≤ i := by
    rintro t ⟨i, hi, hle⟩
    rw [mem_topCommas_iff] at hi
    exact ⟨i, (mem_topCommas_iff text i).mpr hi.size, hle⟩
  have hfilter : closedTokens 0 text = (closedTokens Int32.size text).filter
      fun t => ∃ i ∈ topCommas 0 text, t.offset + t.text.length ≤ i := by
    unfold closedTokens
    rw [List.filter_filter]
    apply List.filter_congr
    intro t _
    simpa using hcloses t
  rw [hfilter]
  apply filter_prefix_of_pairwise
  -- A token that is closed is behind those before it, so these are closed by the same comma.
  apply ((accounts_scan text).apart.filter _).imp
  intro t u hapart hu
  obtain ⟨i, hi, hle⟩ := of_decide_eq_true hu
  exact decide_eq_true ⟨i, hi, by omega⟩

/-- On a text that is told right both are the same tokens. -/
theorem TellsTop.closedTokens_eq {text : Bytes} (h : TellsTop text) :
    closedTokens Int32.size text = closedTokens 0 text := by
  have hcommas : topCommas Int32.size text = topCommas 0 text := by
    unfold topCommas
    apply List.filter_congr
    intro i _
    exact decide_eq_decide.mpr ⟨h.isTopComma_zero, IsTopComma.size⟩
  unfold closedTokens
  rw [hcommas]

/-! ## The scan of a line that goes on -/

/-- The closed tokens are those that a scan has found before it comes to the end. -/
theorem closedTokens_eq_tokens (text : Bytes) :
    closedTokens Int32.size text = (Scan.ofLine text : Scan Int32).tokens.reverse := by
  rcases isQuiet_or_exists_last_top_comma Int32.size text with
    hquiet | ⟨a, b, rfl, hclosed, hquiet⟩
  · rw [closedTokens_of_isQuiet text hquiet, Scan.ofLine, Scan.fresh,
      foldl_step_of_isQuiet Scan.countsModulo_word 0 text _ hquiet]
    rfl
  · have hdepth : (Scan.ofLine a : Scan Int32).depth = 0 := by
      rw [Scan.depth_ofLine]
      exact (Scan.countsModulo_word a).mpr hclosed
    have hcomma : (Scan.ofLine a : Scan Int32).step comma =
        ⟨0, (Scan.ofLine a : Scan Int32).start + (Scan.ofLine a : Scan Int32).segment.length + 1,
          [], (Scan.ofLine a : Scan Int32).close⟩ := by
      rw [Scan.step, if_pos ⟨rfl, hdepth⟩, hdepth]
    have hscan : (Scan.ofLine (a ++ comma :: b) : Scan Int32) =
        b.foldl Scan.step ((Scan.ofLine a : Scan Int32).step comma) := by
      rw [Scan.ofLine, List.foldl_append, List.foldl_cons, Scan.ofLine]
    rw [closedTokens_append_comma a b hclosed hquiet, hscan, hcomma,
      foldl_step_of_isQuiet Scan.countsModulo_word _ b _ hquiet]
    rfl

/-- The closed tokens of a text are the first tokens of every line that begins with it. -/
theorem closedTokens_prefix_scan_append (a b : Bytes) :
    closedTokens Int32.size a <+: scan (a ++ b) := by
  rcases isQuiet_or_exists_last_top_comma Int32.size a with
    hquiet | ⟨front, back, rfl, hclosed, hquiet⟩
  · rw [closedTokens_of_isQuiet a hquiet]
    exact List.nil_prefix
  · rw [closedTokens_append_comma front back hclosed hquiet, List.append_assoc, List.cons_append,
      scan_append_comma front (back ++ b) hclosed]
    exact List.prefix_append _ _

/-- **Tokens that are closed stay as they are.** A comma behind a text that closes as many braces as
it opens parts the line: its tokens are those of the text, and then those of what is behind the
comma, moved by as much as they begin later. Whatever the braces of a text, its closed tokens are
its first tokens, and they are the first tokens of every line that begins with the text.

So are the tokens that a scan has found when it comes to the end of the text. These are the tokens
that are closed for words, which begin with the closed ones and are no others if no comma of the
text is told wrong. -/
theorem closed_tokens_stay :
    (∀ a b, net a = 0 →
      scan (a ++ comma :: b) = scan a ++ (scan b).map (moved (a.length + 1))) ∧
    (∀ a b, closedTokens 0 a <+: scan a ∧ closedTokens 0 a <+: scan (a ++ b)) ∧
    (∀ a, closedTokens Int32.size a = (Scan.ofLine a : Scan Int32).tokens.reverse) ∧
    (∀ a b, closedTokens Int32.size a <+: scan a ∧ closedTokens Int32.size a <+: scan (a ++ b)) ∧
    (∀ a, closedTokens 0 a <+: closedTokens Int32.size a) ∧
    ∀ a, TellsTop a → closedTokens Int32.size a = closedTokens 0 a := by
  have hstay : ∀ a b, closedTokens Int32.size a <+: scan a ∧
      closedTokens Int32.size a <+: scan (a ++ b) := by
    intro a b
    have hself := closedTokens_prefix_scan_append a []
    rw [List.append_nil] at hself
    exact ⟨hself, closedTokens_prefix_scan_append a b⟩
  refine ⟨?_, ?_, closedTokens_eq_tokens, hstay, closedTokens_zero_prefix, ?_⟩
  · intro a b hnet
    exact scan_append_comma a b (closes_of_net_eq_zero _ a hnet)
  · intro a b
    obtain ⟨hself, hline⟩ := hstay a b
    have hfirst := closedTokens_zero_prefix a
    exact ⟨hfirst.trans hself, hfirst.trans hline⟩
  · intro a h
    exact h.closedTokens_eq

/-- A text that goes below depth zero and comes back, and behind it a text that closes a brace that
it does not open. Left without its last comma, the first text has one closed token, which stays when
the other token goes on. -/
theorem closed_tokens_stay_below_zero :
    net (ofString "\x7d,\x7b ,u,") = 0 ∧
      scan (ofString "\x7d,\x7b ,u,, v\x7d,w") =
        [⟨0, ofString "\x7d,\x7b"⟩, ⟨5, ofString "u"⟩, ⟨9, ofString "v\x7d,w"⟩] ∧
      closedTokens 0 (ofString "\x7d,\x7b ,u") = [⟨0, ofString "\x7d,\x7b"⟩] ∧
      TellsTop (ofString "\x7d,\x7b ,u") ∧
      (Scan.ofLine (ofString "\x7d,\x7b ,u") : Scan Int32).tokens.reverse =
        [⟨0, ofString "\x7d,\x7b"⟩] ∧
      closedTokens 0 (ofString "\x7d,\x7b ,u") <+: scan (ofString "\x7d,\x7b ,u\x7b,v,\x7d") := by
  have hnet : net (ofString "\x7d,\x7b ,u,") = 0 := by decide
  have htells : TellsTop (ofString "\x7d,\x7b ,u") :=
    tellsTop_of_length_le _ (by decide)
  obtain ⟨hpart, hstay, htokens, -, -, hexact⟩ := closed_tokens_stay
  have hscan := hpart (ofString "\x7d,\x7b ,u,") (ofString " v\x7d,w") hnet
  have hclosed : closedTokens 0 (ofString "\x7d,\x7b ,u") = [⟨0, ofString "\x7d,\x7b"⟩] := by
    decide
  refine ⟨hnet, hscan.trans (by decide), hclosed, htells, ?_, ?_⟩
  · rw [← htokens, hexact _ htells, hclosed]
  · exact (hstay (ofString "\x7d,\x7b ,u") (ofString "\x7b,v,\x7d")).2

end MessageFeed.Token
