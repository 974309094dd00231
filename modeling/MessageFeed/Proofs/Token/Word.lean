import MessageFeed.Proofs.Token.Layout
import Mathlib.Algebra.Group.Int.Defs
import Mathlib.Algebra.Group.Nat.Defs

/-!
# Depths that are words

A depth of thirty-two bits is zero wherever the net of what has been read is a multiple of 2³². Only
at a comma does that matter: a line whose commas it tells right (`TellsTop`) is laid out for words
as it is for exact counting (`laidOut_zero_of_tellsTop`), and so both scans of it find the same
tokens. If they do, on the other hand, no comma is told wrong, since each of them stands in a token,
where a comma that seems to be on the top level cannot be, or between two (`tellsTop_of_laidOut`).

A line whose nets fit a word is always told right (`FitsWord.tellsTop`), and a line of up to 2³¹ - 1
bytes has only such nets (`tellsTop_of_length_le`).
-/

set_option autoImplicit false

namespace MessageFeed.Token

open Bytes

/-- No part of a line up to any byte of it has a net that a word of thirty-two bits cannot hold. -/
def FitsWord (line : Bytes) : Prop :=
  ∀ front, front <+: line → -2 ^ 31 ≤ net front ∧ net front ≤ 2 ^ 31 - 1

/-! ## Lines that are told right -/

/-- Telling the top-level commas right is a matter of the depth at each comma. -/
theorem tellsTop_iff (line : Bytes) :
    TellsTop line ↔ AtCommas (fun depth => (Int32.size : Int) ∣ depth → depth = 0) 0 line := by
  unfold TellsTop AtCommas Closes
  simp only [Int.zero_add]

/-- Padding around a text is told right if the text is. -/
theorem tellsTop_padded_iff (left text right : Bytes) (hleft : IsPadding left)
    (hright : IsPadding right) : TellsTop (left ++ text ++ right) ↔ TellsTop text := by
  rw [tellsTop_iff, tellsTop_iff]
  exact atCommas_padded_iff _ left text right hleft hright

/-- A comma that is on the top level parts a line into texts that are told right on their own. -/
theorem tellsTop_append_comma_iff (a b : Bytes) (hnet : net a = 0) :
    TellsTop (a ++ comma :: b) ↔ TellsTop a ∧ TellsTop b := by
  have hcomma : net [comma] = 0 := rfl
  rw [tellsTop_iff, tellsTop_iff, tellsTop_iff, atCommas_append_iff, atCommas_cons_iff, hnet,
    hcomma, Int.add_zero, Int.add_zero]
  simp

/-! ## The two grammars -/

/-- A token for words is a token in which no comma is told wrong. -/
theorem isToken_size_iff (text : Bytes) :
    IsToken Int32.size text ↔ IsToken 0 text ∧ TellsTop text := by
  constructor
  · intro h
    refine ⟨⟨h.toIsTrimmed, ?_⟩, ?_⟩
    · intro before after hsplit hclosed
      exact h.no_top_comma before after hsplit (hclosed.of_zero _)
    · intro before after hsplit hclosed
      exact absurd hclosed (h.no_top_comma before after hsplit)
  · rintro ⟨htoken, htells⟩
    refine ⟨htoken.toIsTrimmed, ?_⟩
    intro before after hsplit hclosed
    exact htoken.no_top_comma before after hsplit
      ((closes_zero_iff before).mpr (htells before after hsplit hclosed))

/-- Texts that can be told apart by exact counting can be told apart by words too, if no comma in
them is told wrong. -/
theorem areTokens_size (texts : List Bytes) (h : AreTokens 0 texts)
    (htells : ∀ text ∈ texts, TellsTop text) : AreTokens Int32.size texts := by
  constructor
  · intro text htext
    exact (isToken_size_iff text).mpr ⟨h.1 text htext, htells text htext⟩
  · intro text htext
    exact (h.2 text htext).of_zero _

/-- In a line that is told right, tokens that are laid out for words are laid out exactly. -/
theorem laidOut_zero_of_tellsTop (start : Nat) (tokens : List Token) (line : Bytes)
    (h : LaidOut Int32.size start tokens line) (htells : TellsTop line) :
    LaidOut 0 start tokens line := by
  induction h with
  | padding blank => exact .padding blank
  | @last start left text right blank_left token blank_right =>
    exact .last blank_left ((isToken_size_iff text).mp token).1 blank_right
  | @skip start tokens pad rest blank _ ih =>
    have hnet := net_of_isPadding pad blank
    exact .skip blank (ih ((tellsTop_append_comma_iff pad rest hnet).mp htells).2)
  | @next start tokens left text right rest blank_left token closed blank_right _ ih =>
    -- The comma behind the segment seems to be on the top level, so it is.
    have hsegment := net_padded left text right blank_left blank_right
    have hclosed := (closes_padded_iff _ left text right blank_left blank_right).mpr closed
    have hnet : net (left ++ text ++ right) = 0 := htells _ rest rfl hclosed
    have hrest := ((tellsTop_append_comma_iff (left ++ text ++ right) rest hnet).mp htells).2
    exact .next blank_left ((isToken_size_iff text).mp token).1
      ((closes_zero_iff text).mpr (hsegment.symm.trans hnet)) blank_right (ih hrest)

/-- Tokens that are laid out exactly, and in which no comma is told wrong, are laid out for words,
and no comma of the line is told wrong. -/
theorem tellsTop_of_laidOut (start : Nat) (tokens : List Token) (line : Bytes)
    (h : LaidOut 0 start tokens line) (htells : ∀ t ∈ tokens, TellsTop t.text) :
    LaidOut Int32.size start tokens line ∧ TellsTop line := by
  have hpadding : ∀ pad, IsPadding pad → TellsTop pad := fun pad hpad =>
    (tellsTop_iff pad).mpr (atCommas_of_isPadding _ 0 pad hpad)
  induction h with
  | @padding start pad blank => exact ⟨.padding blank, hpadding pad blank⟩
  | @last start left text right blank_left token blank_right =>
    have htext : TellsTop text := htells _ (List.mem_singleton_self _)
    exact ⟨.last blank_left ((isToken_size_iff text).mpr ⟨token, htext⟩) blank_right,
      (tellsTop_padded_iff left text right blank_left blank_right).mpr htext⟩
  | @skip start tokens pad rest blank _ ih =>
    obtain ⟨hlaid, hrest⟩ := ih htells
    exact ⟨.skip blank hlaid, (tellsTop_append_comma_iff pad rest (net_of_isPadding pad blank)).mpr
      ⟨hpadding pad blank, hrest⟩⟩
  | @next start tokens left text right rest blank_left token closed blank_right _ ih =>
    obtain ⟨htext, hmore⟩ := List.forall_mem_cons.mp htells
    obtain ⟨hlaid, hrest⟩ := ih hmore
    have hnet : net text = 0 := (closes_zero_iff text).mp closed
    have hsegment := net_padded left text right blank_left blank_right
    constructor
    · exact .next blank_left ((isToken_size_iff text).mpr ⟨token, htext⟩)
        (closed.of_zero _) blank_right hlaid
    · exact (tellsTop_append_comma_iff _ rest (hsegment.trans hnet)).mpr
        ⟨(tellsTop_padded_iff left text right blank_left blank_right).mpr htext, hrest⟩

/-! ## Agreement -/

/-- The tokens of a line are the ones laid out in it exactly, if and only if it is told right. -/
theorem laidOut_zero_scan_iff (line : Bytes) : LaidOut 0 0 (scan line) line ↔ TellsTop line := by
  constructor
  · intro h
    have htexts := (areTokens_scan line).1
    refine (tellsTop_of_laidOut 0 _ line h ?_).2
    intro t ht
    exact ((isToken_size_iff t.text).mp (htexts t.text (List.mem_map_of_mem ht))).2
  · exact laidOut_zero_of_tellsTop 0 _ line (laidOut_scan line)

/-- Both scans find the same tokens in a line if and only if it is told right. -/
theorem scan_eq_scanUnbounded_iff (line : Bytes) :
    scan line = scanUnbounded line ↔ TellsTop line := by
  rw [← laidOut_zero_scan_iff, eq_comm]
  exact scanIn_eq_iff_laidOut Scan.countsModulo_int line (scan line)

/-! ## Lines that fit -/

/-- The net of a text is within its length. -/
theorem net_bounds (text : Bytes) : -(text.length : Int) ≤ net text ∧ net text ≤ text.length := by
  have hopen : text.count openBrace ≤ text.length := List.count_le_length
  have hclose : text.count closeBrace ≤ text.length := List.count_le_length
  unfold net
  omega

/-- A line that is short enough fits. -/
theorem fitsWord_of_length_le (line : Bytes) (h : line.length ≤ 2 ^ 31 - 1) : FitsWord line := by
  intro front hfront
  have hbounds := net_bounds front
  have hle := hfront.length_le
  omega

/-- In a line that fits, the only multiple of 2³² that can stand at a comma is zero. -/
theorem FitsWord.tellsTop {line : Bytes} (h : FitsWord line) : TellsTop line := by
  rintro before after rfl hclosed
  have hbounds := h before (List.prefix_append _ _)
  have hdvd : (4294967296 : Int) ∣ net before := hclosed
  omega

/-- A line that is short enough is told right. -/
theorem tellsTop_of_length_le (line : Bytes) (h : line.length ≤ 2 ^ 31 - 1) : TellsTop line :=
  (fitsWord_of_length_le line h).tellsTop

/-- The depth of an exact scan is the net of what has been read. -/
theorem depth_ofLine_int (line : Bytes) : (Scan.ofLine line : Scan Int).depth = net line := by
  rw [Scan.depth_ofLine, Scan.foldl_deepen_int, Int.zero_add]

/-- The depth of a scan in words is that net, cut down to a word. -/
theorem depth_ofLine_word (line : Bytes) :
    (Scan.ofLine line : Scan Int32).depth = Int32.ofInt (net line) := by
  have hword := Scan.foldl_deepen_word 0 line
  rw [Int.zero_add] at hword
  rw [Scan.depth_ofLine]
  exact hword

/-- **A word of thirty-two bits is wide enough to count the depth of a line.** On a line of up to
2³¹ - 1 bytes the depth stays in the range of the word at every byte, and the scan that counts in
words finds the same tokens, at the same offsets, as the one that counts in the integers. So it does
on every line, however long, that has no net out of range up to any of its bytes; the word is then
the depth itself all along. In general the two agree exactly on those lines in which no comma stands
where the net is a multiple of 2³² other than zero. -/
theorem scan_agrees_with_scanUnbounded :
    (∀ line : Bytes, line.length ≤ 2 ^ 31 - 1 →
      (∀ front, front <+: line → -2 ^ 31 ≤ (Scan.ofLine front : Scan Int).depth ∧
        (Scan.ofLine front : Scan Int).depth ≤ 2 ^ 31 - 1) ∧
      scan line = scanUnbounded line) ∧
    (∀ line, FitsWord line →
      (∀ front, front <+: line → (Scan.ofLine front : Scan Int32).depth.toInt =
        (Scan.ofLine front : Scan Int).depth) ∧
      scan line = scanUnbounded line) ∧
    ∀ line, scan line = scanUnbounded line ↔ TellsTop line := by
  refine ⟨?_, ?_, scan_eq_scanUnbounded_iff⟩
  · intro line hlength
    have hfits := fitsWord_of_length_le line hlength
    refine ⟨?_, (scan_eq_scanUnbounded_iff line).mpr hfits.tellsTop⟩
    intro front hfront
    rw [depth_ofLine_int]
    exact hfits front hfront
  · intro line hfits
    refine ⟨?_, (scan_eq_scanUnbounded_iff line).mpr hfits.tellsTop⟩
    intro front hfront
    obtain ⟨hlow, hhigh⟩ := hfits front hfront
    rw [depth_ofLine_word, depth_ofLine_int]
    exact Int32.toInt_ofInt_of_le hlow (by omega)

/-- The net of a row of opening braces is their number. -/
theorem net_replicate_openBrace (depth : Nat) :
    net (List.replicate depth openBrace) = depth := by
  have hclose : (List.replicate depth openBrace).count closeBrace = 0 := by
    rw [List.count_replicate]
    rfl
  rw [net, List.count_replicate_self, hclose]
  exact Int.sub_zero _

/-- Up to any byte of a line that opens groups and then has a comma, the net is between none and all
of them. -/
theorem net_of_prefix_opened (depth : Nat) (front : Bytes)
    (h : front <+: List.replicate depth openBrace ++ [comma]) :
    0 ≤ net front ∧ net front ≤ depth := by
  have hopen := h.sublist.count_le openBrace
  have hclose := h.sublist.count_le closeBrace
  rw [List.count_append, List.count_replicate] at hopen hclose
  have hcomma : [comma].count openBrace = 0 ∧ [comma].count closeBrace = 0 := by decide
  have hbraces : (openBrace == openBrace) = true ∧ (openBrace == closeBrace) = false := by decide
  simp only [hcomma, hbraces, if_true, Bool.false_eq_true, if_false] at hopen hclose
  unfold net
  omega

/-- Behind 2³² opening braces a word is zero again. -/
theorem closes_opened : Closes Int32.size (List.replicate Int32.size openBrace) := by
  have hnet := net_replicate_openBrace Int32.size
  unfold Closes
  exact hnet ▸ Int.dvd_refl _

/-- A word tells a comma wrong that comes behind as many opening braces: they are all open. -/
theorem not_tellsTop_opened (rest : Bytes) :
    ¬ TellsTop (List.replicate Int32.size openBrace ++ comma :: rest) := by
  intro htells
  have hzero := htells _ rest rfl closes_opened
  rw [net_replicate_openBrace] at hzero
  exact absurd hzero (by decide)

/-- The scans agree on a stray closing brace, and on a line that is too long for its length alone to
tell, where the depth goes up to the greatest word. They differ behind 2³² opening braces, where the
word is zero again. -/
theorem scan_agrees_with_scanUnbounded_up_to_greatest :
    (scan (ofString "\x7d,\x7b ,u") = scanUnbounded (ofString "\x7d,\x7b ,u")) ∧
      2 ^ 31 - 1 < (List.replicate (2 ^ 31 - 1) openBrace ++ [comma]).length ∧
      (Scan.ofLine (List.replicate (2 ^ 31 - 1) openBrace ++ [comma]) : Scan Int32).depth.toInt =
        (Scan.ofLine (List.replicate (2 ^ 31 - 1) openBrace ++ [comma]) : Scan Int).depth ∧
      scan (List.replicate (2 ^ 31 - 1) openBrace ++ [comma]) =
        scanUnbounded (List.replicate (2 ^ 31 - 1) openBrace ++ [comma]) ∧
      scan (List.replicate (2 ^ 32) openBrace ++ [comma]) ≠
        scanUnbounded (List.replicate (2 ^ 32) openBrace ++ [comma]) := by
  obtain ⟨hshort, hfits, hexact⟩ := scan_agrees_with_scanUnbounded
  have hgreatest := hfits (List.replicate (2 ^ 31 - 1) openBrace ++ [comma]) (by
    intro front hfront
    have hnet := net_of_prefix_opened (2 ^ 31 - 1) front hfront
    omega)
  refine ⟨(hshort _ (by decide)).2, ?_, hgreatest.1 _ List.prefix_rfl, hgreatest.2, ?_⟩
  · rw [List.length_append, List.length_replicate, List.length_singleton]
    omega
  · intro hsame
    exact not_tellsTop_opened [] ((hexact _).mp hsame)

/-! ## A line that is told wrong -/

/-- A row of opening braces is a token, also for words. -/
theorem isToken_replicate_openBrace (period depth : Nat) (h : depth ≠ 0) :
    IsToken period (List.replicate depth openBrace) := by
  have hmem : ∀ b ∈ List.replicate depth openBrace, b = openBrace := fun b hb =>
    List.eq_of_mem_replicate hb
  have htrimmed : IsTrimmed (List.replicate depth openBrace) := by
    refine ⟨?_, ?_, ?_⟩
    · rwa [ne_eq, List.replicate_eq_nil_iff]
    · intro b hb
      rw [hmem b (List.mem_of_head? hb)]
      decide
    · intro b hb
      rw [hmem b (List.mem_of_getLast? hb)]
      decide
  apply htrimmed.isToken
  apply atCommas_of_not_mem
  intro hcomma
  exact absurd (hmem comma hcomma) (by decide)

/-- A line with so many braces open before its comma that a word is zero again there. -/
def wrapped : Bytes :=
  List.replicate Int32.size openBrace ++ comma :: ofString "x"

/-- The comma parts the line. -/
theorem scan_wrapped :
    scan wrapped =
      [⟨0, List.replicate Int32.size openBrace⟩, ⟨Int32.size + 1, ofString "x"⟩] := by
  have hopened : IsToken Int32.size (List.replicate Int32.size openBrace) :=
    isToken_replicate_openBrace _ _ (by decide)
  have hscan : (scan (ofString "x")).map Token.text = [ofString "x"] := by decide
  have hx : IsToken Int32.size (ofString "x") := by
    apply (areTokens_scan (ofString "x")).1
    rw [hscan]
    exact List.mem_singleton_self _
  have hlast : ∀ start, LaidOut Int32.size start [⟨start, ofString "x"⟩] (ofString "x") := by
    intro start
    exact .last isPadding_nil hx isPadding_nil
  have hlaid : LaidOut Int32.size 0 _
      ([] ++ List.replicate Int32.size openBrace ++ [] ++ comma :: ofString "x") :=
    .next isPadding_nil hopened closes_opened isPadding_nil (hlast _)
  rw [scan_eq_iff_laidOut]
  rw [List.nil_append, List.append_nil, List.length_replicate] at hlaid
  exact hlaid

/-- The parts cannot be told apart by exact counting: the first leaves braces open. -/
theorem not_areTokens_opened :
    ¬ AreTokens 0 [List.replicate Int32.size openBrace, ofString "x"] := by
  rintro ⟨-, hclosed⟩
  have hopened := hclosed (List.replicate Int32.size openBrace) List.mem_cons_self
  rw [closes_zero_iff, net_replicate_openBrace] at hopened
  exact absurd hopened (by decide)

end MessageFeed.Token
