import MessageFeed.Proofs.Token.Word
import MessageFeed.Token.Pieces

/-!
# The scan finds the tokens of the pieces

A line that is not quiet is a quiet segment that closes what it opens, a comma, and what comes
behind it, and the commas of what comes behind are on the top level there if and only if they are in
the line. So whatever is said of a line by its pieces can be proved along its segments
(`segment_induction`): the scan finds the tokens of the pieces (`scanIn_eq_ofPieces`), and these
tokens account for the line (`accounts_ofPiecesFrom`). Each of them stands in the line where its
offset says, they do not touch, and what they leave out is blank or a top-level comma.

The top level is that of the period which the depths of the scan count modulo. A scan in words
therefore finds the tokens of the pieces between the exact top-level commas on those lines which a
word tells right, and on no others (`scan_eq_ofPieces_zero_iff`).
-/

set_option autoImplicit false

namespace MessageFeed.Token

open Bytes

/-- Whether a token covers a position of its line. -/
def Covers (token : Token) (i : Nat) : Prop :=
  token.offset ≤ i ∧ i < token.offset + token.text.length

/-- The tokens of the pieces of a text that begins at offset `start`. -/
def ofPiecesFrom (period start : Nat) (text : Bytes) : List Token :=
  (pieces period text).filterMap fun piece => ofSegment? (start + piece.1) piece.2

/-- Tokens account for a text that begins at offset `start`: each is a trimmed part of it, at its
offset, with no comma on the top level in it; they are in order and do not touch; and each byte that
none of them covers is blank or a comma on the top level. -/
structure Accounts (period start : Nat) (tokens : List Token) (text : Bytes) : Prop where
  stands : ∀ t ∈ tokens, IsTrimmed t.text ∧
    ∃ before after, text = before ++ t.text ++ after ∧ t.offset = start + before.length
  apart : tokens.Pairwise fun t u => t.offset + t.text.length < u.offset
  no_top_comma : ∀ t ∈ tokens, ∀ i, t.Covers (start + i) → ¬ IsTopComma period text i
  covered : ∀ i b, text[i]? = some b →
    (∃ t ∈ tokens, t.Covers (start + i)) ∨ isBlank b = true ∨ IsTopComma period text i

variable {period : Nat}

/-! ## Segments -/

/-- What holds of quiet texts, and of a segment with more behind it if it holds of what is behind,
holds of every text. -/
theorem segment_induction (period : Nat) {motive : Bytes → Prop}
    (quiet : ∀ text, IsQuiet period 0 text → motive text)
    (segment : ∀ a b, IsQuiet period 0 a → Closes period a → motive b → motive (a ++ comma :: b))
    (text : Bytes) : motive text := by
  rcases isQuiet_or_exists_segment period text with hquiet | ⟨a, b, hsplit, hquiet, hclosed⟩
  · exact quiet text hquiet
  · rw [hsplit]
    apply segment a b hquiet hclosed
    exact segment_induction period quiet segment b
termination_by text.length
decreasing_by
  rw [hsplit]
  simp only [List.length_append, List.length_cons]
  omega

/-- A top-level comma parts a text into what is before it and what is behind it. -/
theorem IsTopComma.eq_append {text : Bytes} {i : Nat} (h : IsTopComma period text i) :
    text = text.take i ++ comma :: text.drop (i + 1) := by
  obtain ⟨hi, hget⟩ := List.getElem?_eq_some_iff.mp h.1
  rw [← hget, List.getElem_cons_drop, List.take_append_drop]

/-- A quiet text has no comma on the top level. -/
theorem not_isTopComma_of_isQuiet (text : Bytes) (i : Nat) (h : IsQuiet period 0 text) :
    ¬ IsTopComma period text i := by
  intro htop
  exact (isQuiet_zero_iff text).mp h _ _ htop.eq_append htop.2

/-- The list of the top-level commas holds all of them and nothing else. -/
theorem mem_topCommas_iff (text : Bytes) (i : Nat) :
    i ∈ topCommas period text ↔ IsTopComma period text i := by
  unfold topCommas
  rw [List.mem_filter, decide_eq_true_iff, List.mem_range, and_iff_right_iff_imp]
  rintro ⟨hcomma, -⟩
  exact (List.getElem?_eq_some_iff.mp hcomma).1

section Segment

variable (a b : Bytes)

/-- Bytes behind a segment do not decide which commas in it are on the top level. -/
theorem isTopComma_append_left (i : Nat) (hi : i < a.length) :
    IsTopComma period (a ++ comma :: b) i ↔ IsTopComma period a i := by
  unfold IsTopComma
  rw [List.getElem?_append_left hi, List.take_append_of_le_length (by omega)]

/-- The comma behind a segment that closes what it opens is on the top level. -/
theorem isTopComma_append_length (hclosed : Closes period a) :
    IsTopComma period (a ++ comma :: b) a.length := by
  unfold IsTopComma
  simp [hclosed]

/-- The length of a line that a comma parts. -/
theorem length_append_comma : (a ++ comma :: b).length = a.length + 1 + b.length := by
  rw [List.length_append, List.length_cons]
  omega

/-- Behind the comma all positions are those of `b`, moved. -/
theorem getElem?_behind_comma (i : Nat) : (a ++ comma :: b)[a.length + 1 + i]? = b[i]? := by
  rw [List.getElem?_append_right (by omega)]
  have hshift : a.length + 1 + i - a.length = i + 1 := by omega
  rw [hshift, List.getElem?_cons_succ]

/-- A comma closes what it opens. -/
theorem closes_append_comma_iff (hclosed : Closes period a) :
    Closes period (a ++ comma :: b) ↔ Closes period b := by
  have hcomma : Closes period [comma] := closes_of_net_eq_zero period [comma] rfl
  rw [hclosed.append_iff, ← List.singleton_append, hcomma.append_iff]

/-- Behind the comma the top-level commas are those of `b`, moved. -/
theorem isTopComma_append_right (i : Nat) (hclosed : Closes period a) :
    IsTopComma period (a ++ comma :: b) (a.length + 1 + i) ↔ IsTopComma period b i := by
  have htake : (a ++ comma :: b).take (a.length + 1 + i) = a ++ comma :: b.take i := by
    rw [List.take_append, List.take_of_length_le (by omega)]
    have hshift : a.length + 1 + i - a.length = i + 1 := by omega
    rw [hshift, List.take_succ_cons]
  unfold IsTopComma
  rw [getElem?_behind_comma, htake, closes_append_comma_iff a _ hclosed]

/-- A quiet text is not cut anywhere. -/
theorem topCommas_of_isQuiet (h : IsQuiet period 0 a) : topCommas period a = [] := by
  unfold topCommas
  rw [List.filter_eq_nil_iff]
  intro i _
  simpa using not_isTopComma_of_isQuiet a i h

/-- A line is first cut at the end of its first segment, and then where the rest is cut. -/
theorem topCommas_segment (h : IsQuiet period 0 a) (hclosed : Closes period a) :
    topCommas period (a ++ comma :: b) =
      a.length :: (topCommas period b).map (a.length + 1 + ·) := by
  have hfirst : (List.range a.length).filter
      (fun i => IsTopComma period (a ++ comma :: b) i) = [] := by
    rw [List.filter_eq_nil_iff]
    intro i hi
    rw [decide_eq_true_iff, isTopComma_append_left a b i (List.mem_range.mp hi)]
    exact not_isTopComma_of_isQuiet a i h
  unfold topCommas
  rw [length_append_comma, List.range_add, List.range_succ, List.filter_append, List.filter_append,
    hfirst, List.filter_map]
  simp [isTopComma_append_length a b hclosed, isTopComma_append_right a b _ hclosed,
    Function.comp_def]

/-! ## Pieces -/

/-- A quiet text is one piece. -/
theorem pieces_of_isQuiet (h : IsQuiet period 0 a) : pieces period a = [(0, a)] := by
  unfold pieces
  rw [topCommas_of_isQuiet a h]
  simp

/-- The first piece is what is before the first top-level comma, and the others are the pieces of
what is behind it. -/
theorem pieces_segment (h : IsQuiet period 0 a) (hclosed : Closes period a) :
    pieces period (a ++ comma :: b) =
      (0, a) :: (pieces period b).map fun piece => (a.length + 1 + piece.1, piece.2) := by
  have hstarts : (a.length :: (topCommas period b).map (a.length + 1 + ·)).map (· + 1) =
      (0 :: (topCommas period b).map (· + 1)).map (a.length + 1 + ·) := by
    simp [Function.comp_def, Nat.add_assoc]
  have hstops : (topCommas period b).map (a.length + 1 + ·) ++ [(a ++ comma :: b).length] =
      (topCommas period b ++ [b.length]).map (a.length + 1 + ·) := by
    rw [length_append_comma, List.map_append]
    rfl
  have hslice : ∀ start stop, ((a ++ comma :: b).drop (a.length + 1 + start)).take
      (a.length + 1 + stop - (a.length + 1 + start)) = (b.drop start).take (stop - start) := by
    intro start stop
    have hdrop : (a ++ comma :: b).drop (a.length + 1 + start) = b.drop start := by
      rw [List.drop_append, List.drop_eq_nil_of_le (by omega), List.nil_append]
      have hshift : a.length + 1 + start - a.length = start + 1 := by omega
      rw [hshift, List.drop_succ_cons]
    rw [hdrop, Nat.add_sub_add_left]
  unfold pieces
  simp only [topCommas_segment a b h hclosed, List.cons_append]
  rw [hstarts, hstops, List.zip_cons_cons, List.zip_map, List.map_cons, List.map_map, List.map_map]
  refine List.cons_eq_cons.mpr ⟨by simp, ?_⟩
  apply List.map_congr_left
  intro piece _
  simp [hslice]

/-- A quiet text has the token of its one piece. -/
theorem ofPiecesFrom_of_isQuiet (start : Nat) (h : IsQuiet period 0 a) :
    ofPiecesFrom period start a = (ofSegment? start a).toList := by
  unfold ofPiecesFrom
  rw [pieces_of_isQuiet a h]
  cases hsegment : ofSegment? start a <;> simp [hsegment]

/-- A line has the token of its first segment, and then those of what is behind it. -/
theorem ofPiecesFrom_segment (start : Nat) (h : IsQuiet period 0 a) (hclosed : Closes period a) :
    ofPiecesFrom period start (a ++ comma :: b) =
      (ofSegment? start a).toList ++ ofPiecesFrom period (start + a.length + 1) b := by
  have hmoved : ∀ piece : Nat × Bytes, ofSegment? (start + (a.length + 1 + piece.1)) piece.2 =
      ofSegment? (start + a.length + 1 + piece.1) piece.2 := by
    intro piece
    simp only [Nat.add_assoc]
  unfold ofPiecesFrom
  rw [pieces_segment a b h hclosed, List.filterMap_cons, List.filterMap_map]
  simp only [Function.comp_def, hmoved, Nat.add_zero]
  cases ofSegment? start a <;> rfl

end Segment

/-! ## The scan -/

/-- Reading at most one element backwards changes nothing. -/
theorem reverse_toList {α : Type} (a : Option α) : a.toList.reverse = a.toList := by
  cases a <;> rfl

/-- The tokens of a line are the tokens of its pieces, if the line begins at offset zero. -/
theorem ofPieces_eq (line : Bytes) : ofPieces period line = ofPiecesFrom period 0 line := by
  unfold ofPieces ofPiecesFrom
  simp

section Scan

variable {δ : Type} [OfNat δ 0] [OfNat δ 1] [Add δ] [Sub δ] [DecidableEq δ]

/-- The scan of a text, begun where the text begins, finds the tokens of its pieces. -/
theorem close_foldl_eq_ofPiecesFrom (hδ : Scan.CountsModulo δ period) (text : Bytes) (start : Nat)
    (found : List Token) :
    (text.foldl Scan.step (⟨0, start, [], found⟩ : Scan δ)).close =
      (ofPiecesFrom period start text).reverse ++ found := by
  induction text using segment_induction period generalizing start found with
  | quiet text h =>
    rw [close_foldl_of_isQuiet hδ start text found h, ofPiecesFrom_of_isQuiet text start h,
      reverse_toList]
  | segment a b h hclosed ih =>
    rw [foldl_step_segment hδ start a b found h hclosed, ih,
      ofPiecesFrom_segment a b start h hclosed, List.reverse_append, reverse_toList,
      List.append_assoc]

/-- **The scan finds the tokens of the pieces**, if the line is cut at the commas that are on the
top level as the depths of the scan count. -/
theorem scanIn_eq_ofPieces (hδ : Scan.CountsModulo δ period) (line : Bytes) :
    scanIn δ line = ofPieces period line := by
  have hclose := close_foldl_eq_ofPiecesFrom hδ line 0 []
  unfold scanIn Scan.ofLine Scan.fresh
  rw [hclose, List.append_nil, List.reverse_reverse, ofPieces_eq]

end Scan

/-- The tokens of a line are those of its pieces for words. -/
theorem scan_eq_ofPieces (line : Bytes) : scan line = ofPieces Int32.size line :=
  scanIn_eq_ofPieces Scan.countsModulo_word line

/-- The tokens of a line are those of its exact pieces if and only if the line is told right. -/
theorem scan_eq_ofPieces_zero_iff (line : Bytes) :
    scan line = ofPieces 0 line ↔ TellsTop line := by
  rw [← scanIn_eq_ofPieces Scan.countsModulo_int line]
  exact scan_eq_scanUnbounded_iff line

/-- A comma that is on the top level is on the top level for words. -/
theorem IsTopComma.size {text : Bytes} {i : Nat} (h : IsTopComma 0 text i) :
    IsTopComma Int32.size text i :=
  ⟨h.1, h.2.of_zero _⟩

/-- On a line that is told right no other comma is. -/
theorem TellsTop.isTopComma_zero {text : Bytes} (htells : TellsTop text) {i : Nat}
    (h : IsTopComma Int32.size text i) : IsTopComma 0 text i := by
  exact ⟨h.1, (closes_zero_iff _).mpr (htells _ _ h.eq_append h.2)⟩

/-! ## What the tokens leave out -/

/-- The token of a quiet segment accounts for it. -/
theorem accounts_ofSegment? (start : Nat) (segment : Bytes) (h : IsQuiet period 0 segment) :
    Accounts period start (ofSegment? start segment).toList segment := by
  rcases isPadding_or_exists_isTrimmed segment with hpad | ⟨left, body, right, rfl, hl, hbody, hr⟩
  · rw [ofSegment?_of_isPadding start segment hpad]
    refine ⟨by simp, by simp, by simp, ?_⟩
    intro i b hb
    exact .inr (.inl (hpad b (List.mem_of_getElem? hb)))
  · rw [ofSegment?_of_isTrimmed start left body right hl hbody hr]
    refine ⟨?_, by simp, ?_, ?_⟩
    · simpa using ⟨hbody, left, ⟨right, by simp⟩, rfl⟩
    · intro t _ i _
      exact not_isTopComma_of_isQuiet _ i h
    · intro i b hb
      by_cases hleft : i < left.length
      · rw [List.append_assoc, List.getElem?_append_left hleft] at hb
        exact .inr (.inl (hl b (List.mem_of_getElem? hb)))
      · by_cases hright : i < left.length + body.length
        · refine .inl ⟨_, List.mem_singleton_self _, ?_⟩
          unfold Covers
          simp only
          omega
        · have hlength : (left ++ body).length ≤ i := by
            rw [List.length_append]
            omega
          rw [List.getElem?_append_right hlength] at hb
          exact .inr (.inl (hr b (List.mem_of_getElem? hb)))

/-- A token of a text lies within it. -/
theorem Accounts.within {start : Nat} {tokens : List Token} {text : Bytes}
    (h : Accounts period start tokens text) (t : Token) (ht : t ∈ tokens) :
    start ≤ t.offset ∧ t.offset + t.text.length ≤ start + text.length := by
  obtain ⟨-, before, after, htext, hoffset⟩ := h.stands t ht
  rw [htext, List.length_append, List.length_append]
  omega

/-- What accounts for a segment, and what accounts for the text behind it, together account for the
whole. -/
theorem Accounts.append {start : Nat} {tokens more : List Token} {a b : Bytes}
    (hclosed : Closes period a) (ha : Accounts period start tokens a)
    (hb : Accounts period (start + a.length + 1) more b) :
    Accounts period start (tokens ++ more) (a ++ comma :: b) := by
  refine ⟨?_, ?_, ?_, ?_⟩
  · intro t ht
    rcases List.mem_append.mp ht with ht | ht
    · obtain ⟨htrimmed, before, after, rfl, hoffset⟩ := ha.stands t ht
      exact ⟨htrimmed, before, after ++ comma :: b, by simp, hoffset⟩
    · obtain ⟨htrimmed, before, after, rfl, hoffset⟩ := hb.stands t ht
      refine ⟨htrimmed, a ++ comma :: before, after, by simp, ?_⟩
      rw [hoffset, List.length_append, List.length_cons]
      omega
  · rw [List.pairwise_append]
    refine ⟨ha.apart, hb.apart, ?_⟩
    intro t ht u hu
    have htwithin := ha.within t ht
    have huwithin := hb.within u hu
    omega
  · intro t ht i hcovers
    unfold Covers at hcovers
    rcases List.mem_append.mp ht with ht | ht
    · have hwithin := ha.within t ht
      rw [isTopComma_append_left a b i (by omega)]
      exact ha.no_top_comma t ht i hcovers
    · have hwithin := hb.within t ht
      obtain ⟨j, rfl⟩ : ∃ j, i = a.length + 1 + j := ⟨i - (a.length + 1), by omega⟩
      rw [isTopComma_append_right a b j hclosed]
      apply hb.no_top_comma t ht
      unfold Covers
      omega
  · intro i c hc
    by_cases hleft : i < a.length
    · rw [List.getElem?_append_left hleft] at hc
      rcases ha.covered i c hc with ⟨t, ht, hcovers⟩ | hblank | htop
      · exact .inl ⟨t, List.mem_append_left _ ht, hcovers⟩
      · exact .inr (.inl hblank)
      · exact .inr (.inr ((isTopComma_append_left a b i hleft).mpr htop))
    · by_cases hcomma : i = a.length
      · rw [hcomma]
        exact .inr (.inr (isTopComma_append_length a b hclosed))
      · obtain ⟨j, rfl⟩ : ∃ j, i = a.length + 1 + j := ⟨i - (a.length + 1), by omega⟩
        rw [getElem?_behind_comma] at hc
        rcases hb.covered j c hc with ⟨t, ht, hcovers⟩ | hblank | htop
        · refine .inl ⟨t, List.mem_append_right _ ht, ?_⟩
          unfold Covers at hcovers ⊢
          omega
        · exact .inr (.inl hblank)
        · exact .inr (.inr ((isTopComma_append_right a b j hclosed).mpr htop))

/-- The tokens of the pieces of a text account for it. -/
theorem accounts_ofPiecesFrom (text : Bytes) (start : Nat) :
    Accounts period start (ofPiecesFrom period start text) text := by
  induction text using segment_induction period generalizing start with
  | quiet text h =>
    rw [ofPiecesFrom_of_isQuiet text start h]
    exact accounts_ofSegment? start text h
  | segment a b h hclosed ih =>
    rw [ofPiecesFrom_segment a b start h hclosed]
    exact (accounts_ofSegment? start a h).append hclosed (ih (start + a.length + 1))

/-- The tokens of a line account for it. -/
theorem accounts_scan (text : Bytes) : Accounts Int32.size 0 (scan text) text := by
  rw [scan_eq_ofPieces, ofPieces_eq]
  exact accounts_ofPiecesFrom text 0

/-- Tokens that do not touch cover no position twice. -/
theorem eq_of_covers {tokens : List Token}
    (h : tokens.Pairwise fun t u => t.offset + t.text.length < u.offset) (i : Nat) (t u : Token)
    (ht : t ∈ tokens) (hu : u ∈ tokens) (hti : t.Covers i) (hui : u.Covers i) : t = u := by
  have hnot : ∀ {t u : Token}, t.offset + t.text.length < u.offset →
      ¬ (t.Covers i ∧ u.Covers i) := by
    intro t u hlt
    unfold Covers
    omega
  have hbefore : tokens.Pairwise fun t u => t.Covers i → u.Covers i → t = u :=
    h.imp fun hlt hti hui => absurd ⟨hti, hui⟩ (hnot hlt)
  have hbehind : tokens.Pairwise fun t u => u.Covers i → t.Covers i → u = t :=
    h.imp fun hlt hui hti => absurd ⟨hti, hui⟩ (hnot hlt)
  exact hbefore.forall_of_forall_of_flip (fun _ _ _ _ => rfl) hbehind ht hu hti hui

/-- **The tokens of a line are those of its pieces, and nothing is lost or found twice.** Cutting a
line at all of its top-level commas, trimming the pieces and dropping the empty ones gives what the
scan finds, offsets included, if and only if no comma of the line is told wrong. In any line this is
so of the commas that a word takes to be on the top level, which are the top-level commas themselves
if none is told wrong.

Each token of any line is a part of it, where its offset says, with no blank end and no top-level
comma in it. The tokens are in order and do not touch. Each byte of the line is in exactly one of
them, unless it is blank or a comma that is taken to be on the top level. -/
theorem tokens_account_for_line (text : Bytes) :
    (scan text = ofPieces 0 text ↔ TellsTop text) ∧
    scan text = ofPieces Int32.size text ∧
    (∀ i, IsTopComma 0 text i → IsTopComma Int32.size text i) ∧
    (TellsTop text → ∀ i, IsTopComma Int32.size text i → IsTopComma 0 text i) ∧
    (∀ t ∈ scan text, IsTrimmed t.text ∧
      (∃ before after, text = before ++ t.text ++ after ∧ before.length = t.offset) ∧
      ∀ i, t.Covers i → ¬ IsTopComma Int32.size text i) ∧
    ((scan text).Pairwise fun t u => t.offset + t.text.length < u.offset) ∧
    ∀ i b, text[i]? = some b →
      (∃! t, t ∈ scan text ∧ t.Covers i) ∨
        isBlank b = true ∨ IsTopComma Int32.size text i := by
  have h := accounts_scan text
  refine ⟨scan_eq_ofPieces_zero_iff text, scan_eq_ofPieces text, fun _ htop => htop.size,
    fun htells _ htop => htells.isTopComma_zero htop, ?_, h.apart, ?_⟩
  · intro t ht
    obtain ⟨htrimmed, before, after, htext, hoffset⟩ := h.stands t ht
    refine ⟨htrimmed, ⟨before, after, htext, by omega⟩, ?_⟩
    intro i hcovers
    apply h.no_top_comma t ht
    rwa [Nat.zero_add]
  · intro i b hb
    rcases h.covered i b hb with ⟨t, ht, hcovers⟩ | hrest
    · rw [Nat.zero_add] at hcovers
      refine .inl ⟨t, ⟨ht, hcovers⟩, ?_⟩
      rintro u ⟨hu, hui⟩
      exact eq_of_covers h.apart i u t hu ht hui hcovers
    · exact .inr hrest

/-- A line that goes below depth zero and comes back, with a blank piece and a brace left open: the
commas at 1 and 11 are in tokens, those at 4 and 7 are on the top level. -/
theorem tokens_account_for_line_below_zero :
    TellsTop (ofString "\x7d,\x7b ,  ,\x7bu\x7b,v ") ∧
      scan (ofString "\x7d,\x7b ,  ,\x7bu\x7b,v ") =
        [⟨0, ofString "\x7d,\x7b"⟩, ⟨8, ofString "\x7bu\x7b,v"⟩] ∧
      topCommas 0 (ofString "\x7d,\x7b ,  ,\x7bu\x7b,v ") = [4, 7] ∧
      ∃! t, t ∈ scan (ofString "\x7d,\x7b ,  ,\x7bu\x7b,v ") ∧ t.Covers 11 := by
  have htells : TellsTop (ofString "\x7d,\x7b ,  ,\x7bu\x7b,v ") :=
    tellsTop_of_length_le _ (by decide)
  obtain ⟨hpieces, -, -, hexact, -, -, hbytes⟩ :=
    tokens_account_for_line (ofString "\x7d,\x7b ,  ,\x7bu\x7b,v ")
  refine ⟨htells, (hpieces.mpr htells).trans (by decide), by decide, ?_⟩
  rcases hbytes 11 comma (by decide) with hone | hblank | htop
  · exact hone
  · exact absurd hblank (by decide)
  · exact absurd (hexact htells 11 htop) (by decide)

/-- Behind 2³² opening braces a comma is told wrong, and the scan cuts there although it is not on
the top level: the exact pieces are not what it finds. -/
theorem scan_wrapped_ne_ofPieces : scan wrapped ≠ ofPieces 0 wrapped := by
  intro hsame
  exact not_tellsTop_opened _ ((scan_eq_ofPieces_zero_iff wrapped).mp hsame)

end MessageFeed.Token
