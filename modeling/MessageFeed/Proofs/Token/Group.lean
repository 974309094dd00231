import MessageFeed.Proofs.Token.Append
import Mathlib.Data.List.Forall2

/-!
# Groups in a line

Inside a balanced group that begins at depth zero or above, the depth stays above zero. So the group
is quiet and leaves the depth as it was, unless the depth of the scan is a word that wraps around in
it (`isQuiet_of_net_lt`). A group has no blank end, so trimming a segment around it does not come to
it (`ofSegment?_around`). Hence what is before a group and what is behind it decide alone how the
line is split, whatever the group holds (`exists_scan_around_group`), and a group that is exchanged
for another one takes nothing with it (`payload_is_opaque`).

A payload that is not quiet is split (`isQuiet_of_holds`), so nothing of this is left where a word
wraps around at a comma of it.
-/

set_option autoImplicit false

namespace MessageFeed.Token

open Bytes

/-- Whether a token holds a part of its line, which begins at position `start`: it covers each
position of that part. -/
def Holds (token : Token) (start : Nat) (part : Bytes) : Prop :=
  ∀ j < part.length, token.Covers (start + j)

/-- Whether a token is another one moved by a distance, on or back. -/
def IsMoved (distance : Int) (token other : Token) : Prop :=
  other.text = token.text ∧ (other.offset : Int) = token.offset + distance

/-! ## Groups are quiet -/

/-- The braces around a text make up for each other. -/
theorem net_braced (text : Bytes) : net (braced text) = net text := by
  have hopen : net [openBrace] = 1 := rfl
  have hclose : net [closeBrace] = -1 := rfl
  rw [braced, List.cons_append, net_cons, net_append, hopen, hclose]
  omega

/-- A group is longer than its payload by its braces. -/
theorem length_braced (text : Bytes) : (braced text).length = text.length + 2 := by
  rw [braced, List.length_append, List.length_cons, List.length_singleton]

/-- A group is quiet if its payload is, one deeper. -/
theorem isQuiet_braced_iff (period : Nat) (depth : Int) (text : Bytes) :
    IsQuiet period depth (braced text) ↔ IsQuiet period (depth + 1) text := by
  have hopen : net [openBrace] = 1 := rfl
  have hclose : ∀ d, IsQuiet period d [closeBrace] := fun d =>
    atCommas_of_not_mem d [closeBrace] (by decide)
  have hfirst : openBrace ≠ comma := by decide
  rw [braced, isQuiet_append_iff, and_iff_left (hclose _), IsQuiet, atCommas_cons_iff, hopen]
  exact and_iff_right fun h => absurd h hfirst

/-- A balanced payload in a group that opens at depth zero or above is quiet, if the depth does not
come to a whole period in it. -/
theorem isQuiet_of_net_lt (period : Nat) (depth : Int) (text : Bytes) (hdepth : 0 ≤ depth)
    (h : IsBalanced text) (hlt : ∀ front, front <+: text → depth + 1 + net front < period) :
    IsQuiet period (depth + 1) text := by
  rintro before after rfl hdvd
  have hnonneg := h.net_nonneg before (List.prefix_append _ _)
  have hperiod := hlt before (List.prefix_append _ _)
  -- Between zero and the period there is no multiple of it.
  have hle := Int.le_of_dvd (by omega) hdvd
  omega

/-- A group with quiet bytes around it. -/
theorem isQuiet_around (period : Nat) (before text after : Bytes)
    (hbefore : IsQuiet period 0 before) (h : IsBalanced text)
    (htext : IsQuiet period (net before + 1) text) (hafter : IsQuiet period (net before) after) :
    IsQuiet period 0 (before ++ braced text ++ after) ∧
      net (before ++ braced text ++ after) = net before + net after := by
  have hgroup : net (braced text) = 0 := (net_braced text).trans h.net_eq_zero
  constructor
  · rw [isQuiet_append_iff, isQuiet_append_iff, net_append, hgroup, Int.add_zero, Int.zero_add,
      isQuiet_braced_iff]
    exact ⟨⟨hbefore, htext⟩, hafter⟩
  · rw [net_append, net_append, hgroup, Int.add_zero]

/-- Whole periods make no difference. -/
theorem isQuiet_add_iff (period : Nat) (distance depth : Int) (text : Bytes)
    (hdistance : (period : Int) ∣ distance) :
    IsQuiet period (distance + depth) text ↔ IsQuiet period depth text := by
  unfold IsQuiet AtCommas
  simp only [Int.add_assoc, Int.dvd_add_right hdistance]

/-! ## Groups are not trimmed -/

/-- A group has a brace at both ends. -/
theorem isTrimmed_braced (text : Bytes) : IsTrimmed (braced text) := by
  refine ⟨List.cons_ne_nil _ _, ?_, ?_⟩
  · intro b hb
    rw [braced, List.cons_append, List.head?_cons] at hb
    rw [← Option.some.inj hb]
    decide
  · intro b hb
    rw [braced, List.getLast?_concat] at hb
    rw [← Option.some.inj hb]
    decide

/-- A trimmed text stays trimmed with more on both sides, as long as the outer ends are trimmed. -/
theorem isTrimmed_around (before text after : Bytes) (h : IsTrimmed text) :
    IsTrimmed (before.dropWhile isBlank ++ text ++ trimEnd after) := by
  refine ⟨by simp [h.ne_nil], ?_, ?_⟩
  · intro b hb
    rw [List.append_assoc, List.head?_append, Option.or_eq_some_iff] at hb
    rcases hb with hb | ⟨-, hb⟩
    · have hhead := List.head?_dropWhile_not isBlank before
      rw [hb] at hhead
      simpa using hhead
    · rw [List.head?_append_of_ne_nil _ h.ne_nil] at hb
      exact h.head_not_blank b hb
  · intro b hb
    rw [List.getLast?_append, Option.or_eq_some_iff] at hb
    rcases hb with hb | ⟨-, hb⟩
    · have hhead := List.head?_dropWhile_not isBlank after.reverse
      rw [trimEnd, List.getLast?_reverse] at hb
      rw [hb] at hhead
      simpa using hhead
    · rw [List.getLast?_append_of_ne_nil _ h.ne_nil] at hb
      exact h.last_not_blank b hb

/-- The token of a segment holds every trimmed part of it whole. -/
theorem ofSegment?_around (start : Nat) (before text after : Bytes) (h : IsTrimmed text) :
    ofSegment? start (before ++ text ++ after) =
      some ⟨start + (before.takeWhile isBlank).length,
        before.dropWhile isBlank ++ text ++ trimEnd after⟩ := by
  have hleft : IsPadding (before.takeWhile isBlank) := fun b hb => List.mem_takeWhile_imp hb
  have hright : IsPadding (after.rtakeWhile isBlank) := fun b hb => List.mem_rtakeWhile_imp hb
  have hbefore : before.takeWhile isBlank ++ before.dropWhile isBlank = before :=
    List.takeWhile_append_dropWhile
  have hafter : trimEnd after ++ after.rtakeWhile isBlank = after :=
    List.rdropWhile_append_rtakeWhile
  have hsplit : before ++ text ++ after = before.takeWhile isBlank ++
      (before.dropWhile isBlank ++ text ++ trimEnd after) ++ after.rtakeWhile isBlank := by
    conv_lhs => rw [← hbefore, ← hafter]
    simp only [List.append_assoc]
  rw [hsplit, ofSegment?_of_isTrimmed start _ _ _ hleft (isTrimmed_around before text after h)
    hright]

/-! ## What is around a group decides how a line is split -/

/-- A comma does not count. -/
theorem net_append_comma (a b : Bytes) : net (a ++ comma :: b) = net a + net b := by
  have hcomma : net [comma] = 0 := rfl
  rw [net_append, net_cons, hcomma, Int.zero_add]

/-- Tokens moved twice are moved by the whole distance. -/
theorem map_moved_moved (tokens : List Token) (distance more : Nat) :
    (tokens.map (moved distance)).map (moved more) = tokens.map (moved (distance + more)) := by
  rw [List.map_map]
  apply List.map_congr_left
  intro t _
  simp only [Function.comp_apply, moved, Nat.add_assoc]

/-- The group is in the first token of a line if no comma before it is on the top level. -/
theorem exists_scan_around_group_of_isQuiet (a c : Bytes) (ha : IsQuiet Int32.size 0 a) :
    ∃ (start : Nat) (left right : Bytes) (behind : List Token),
      start + left.length = a.length ∧
        ∀ p, IsBalanced p → IsQuiet Int32.size (net a + 1) p →
          scan (a ++ braced p ++ c) =
            ⟨start, left ++ braced p ++ right⟩ :: behind.map (moved p.length) := by
  have hlength : (a.takeWhile isBlank).length + (a.dropWhile isBlank).length = a.length := by
    rw [← List.length_append, List.takeWhile_append_dropWhile]
  have hsegment : ∀ p u, IsBalanced p → IsQuiet Int32.size (net a + 1) p →
      IsQuiet Int32.size (net a) u → scan (a ++ braced p ++ u) =
        [⟨(a.takeWhile isBlank).length, a.dropWhile isBlank ++ braced p ++ trimEnd u⟩] := by
    intro p u hp hquiet hu
    rw [scan_of_isQuiet _ (isQuiet_around _ a p u ha hp hquiet hu).1,
      ofSegment?_around 0 a (braced p) u (isTrimmed_braced p), Nat.zero_add]
    rfl
  rcases isQuiet_or_exists_top_comma Int32.size (net a) c with hc | ⟨u, v, rfl, hu, hclosed⟩
  · refine ⟨_, _, trimEnd c, [], hlength, ?_⟩
    intro p hp hquiet
    rw [hsegment p c hp hquiet hc]
    rfl
  · -- The segment of the group ends at the first top-level comma of `c`.
    refine ⟨_, _, trimEnd u, (scan v).map (moved (a.length + u.length + 3)), hlength, ?_⟩
    intro p hp hquiet
    have hline : a ++ braced p ++ (u ++ comma :: v) = (a ++ braced p ++ u) ++ comma :: v := by
      simp only [List.append_assoc]
    have hcloses : Closes Int32.size (a ++ braced p ++ u) := by
      rwa [Closes, (isQuiet_around _ a p u ha hp hquiet hu).2]
    have hdistance : (a ++ braced p ++ u).length + 1 = a.length + u.length + 3 + p.length := by
      rw [List.length_append, List.length_append, length_braced]
      omega
    rw [hline, scan_append_comma _ v hcloses, hsegment p u hp hquiet hu, map_moved_moved, hdistance]
    rfl

/-- The bytes around a group decide which token it is in, what else that token holds, and all other
tokens but for the length of the group. -/
theorem exists_scan_around_group (a c : Bytes) :
    ∃ (before : List Token) (start : Nat) (left right : Bytes) (behind : List Token),
      start + left.length = a.length ∧
        ∀ p, IsBalanced p → IsQuiet Int32.size (net a + 1) p →
          scan (a ++ braced p ++ c) =
            before ++ ⟨start, left ++ braced p ++ right⟩ :: behind.map (moved p.length) := by
  rcases isQuiet_or_exists_last_top_comma Int32.size a with ha | ⟨x, y, rfl, hx, hy⟩
  · obtain ⟨start, left, right, behind, hlength, hscan⟩ :=
      exists_scan_around_group_of_isQuiet a c ha
    exact ⟨[], start, left, right, behind, hlength, hscan⟩
  · obtain ⟨start, left, right, behind, hlength, hscan⟩ :=
      exists_scan_around_group_of_isQuiet y c hy
    refine ⟨scan x, start + (x.length + 1), left, right, behind.map (moved (x.length + 1)), ?_, ?_⟩
    · rw [List.length_append, List.length_cons]
      omega
    · intro p hp hquiet
      have hline : x ++ comma :: y ++ braced p ++ c = x ++ comma :: (y ++ braced p ++ c) := by
        simp only [List.append_assoc, List.cons_append]
      -- What is before the last top-level comma comes to whole periods.
      have hback : IsQuiet Int32.size (net y + 1) p := by
        rwa [net_append_comma, Int.add_assoc, isQuiet_add_iff _ _ _ p hx] at hquiet
      rw [hline, scan_append_comma x _ hx, hscan p hp hback, List.map_cons, map_moved_moved,
        map_moved_moved, Nat.add_comm p.length]
      rfl

/-! ## Only one token holds a group -/

/-- Tokens that do not touch cover a position at one place of the list only. -/
theorem index_eq_of_covers {tokens : List Token}
    (h : tokens.Pairwise fun t u => t.offset + t.text.length < u.offset) (n i k : Nat)
    (t u : Token) (ht : tokens[i]? = some t) (hu : tokens[k]? = some u) (htn : t.Covers n)
    (hun : u.Covers n) : i = k := by
  obtain ⟨hi, rfl⟩ := List.getElem?_eq_some_iff.mp ht
  obtain ⟨hk, rfl⟩ := List.getElem?_eq_some_iff.mp hu
  rw [List.pairwise_iff_getElem] at h
  unfold Covers at htn hun
  rcases Nat.lt_trichotomy i k with hlt | heq | hlt
  · have hapart := h i k hi hk hlt
    omega
  · exact heq
  · have hapart := h k i hk hi hlt
    omega

/-- A token holds what stands in its text. -/
theorem holds_part (start : Nat) (left part right : Bytes) :
    Holds ⟨start, left ++ part ++ right⟩ (start + left.length) part := by
  intro j hj
  unfold Covers
  simp only [List.length_append]
  omega

/-- A part of a line that stands in a token is held by that token only. -/
theorem holds_iff_of_scan (line part left right : Bytes) (before after : List Token) (start : Nat)
    (hne : part ≠ []) (h : scan line = before ++ ⟨start, left ++ part ++ right⟩ :: after) :
    ∀ i t, (scan line)[i]? = some t →
      (t.Holds (start + left.length) part ↔ i = before.length) := by
  have hplace : (scan line)[before.length]? = some ⟨start, left ++ part ++ right⟩ := by
    rw [h, List.getElem?_append_right (Nat.le_refl _), Nat.sub_self, List.getElem?_cons_zero]
  have hholds := holds_part start left part right
  have hpos : 0 < part.length := List.length_pos_iff.mpr hne
  intro i t ht
  constructor
  · intro hheld
    exact index_eq_of_covers (accounts_scan line).apart _ i before.length t _ ht hplace
      (hheld 0 hpos) (hholds 0 hpos)
  · rintro rfl
    rw [hplace] at ht
    rwa [← Option.some.inj ht]

/-- A payload is quiet if one token holds its group. -/
theorem isQuiet_of_holds (a c p : Bytes) (t : Token) (ht : t ∈ scan (a ++ braced p ++ c))
    (hholds : t.Holds a.length (braced p)) : IsQuiet Int32.size (net a + 1) p := by
  rintro before after rfl hdvd
  have hline : a ++ braced (before ++ comma :: after) ++ c =
      (a ++ openBrace :: before) ++ comma :: (after ++ closeBrace :: c) := by
    simp [braced]
  have hplace : (a ++ openBrace :: before).length = a.length + (before.length + 1) := by
    rw [List.length_append, List.length_cons]
  have hclosed : Closes Int32.size (a ++ openBrace :: before) := by
    have hopen : net [openBrace] = 1 := rfl
    rwa [Closes, net_append, net_cons, hopen, ← Int.add_assoc]
  -- The comma is on the top level for words, and no token covers it.
  have hcovers := hholds (before.length + 1) (by
    rw [length_braced, List.length_append, List.length_cons]
    omega)
  have htop :=
    isTopComma_append_length (a ++ openBrace :: before) (after ++ closeBrace :: c) hclosed
  rw [← hline, hplace] at htop
  rw [← Nat.zero_add (a.length + _)] at hcovers
  exact (accounts_scan _).no_top_comma t ht _ hcovers htop

/-- **Payloads are opaque.** Take two balanced payloads and set each of them in braces into the same
line, so that a word tells no comma of them wrong. The two lines have equally many tokens. The group
is held by one token of either line, at the same place of the list, and these two tokens are the
same with one group exchanged for the other. The tokens before it are the same, and those behind it
are the same but moved by the difference in length of the payloads.

A group is held by a token only if no comma of the payload is told wrong. None is if the group opens
at depth zero or above and the depth stays below 2³² in it. -/
theorem payload_is_opaque :
    (∀ a c p q, IsBalanced p → IsBalanced q → IsQuiet Int32.size (net a + 1) p →
      IsQuiet Int32.size (net a + 1) q →
      (scan (a ++ braced q ++ c)).length = (scan (a ++ braced p ++ c)).length ∧
      ∃ (before after others : List Token) (start : Nat) (left right : Bytes),
        scan (a ++ braced p ++ c) = before ++ ⟨start, left ++ braced p ++ right⟩ :: after ∧
        scan (a ++ braced q ++ c) = before ++ ⟨start, left ++ braced q ++ right⟩ :: others ∧
        start + left.length = a.length ∧
        List.Forall₂ (IsMoved (q.length - p.length)) after others ∧
        (∀ i t, (scan (a ++ braced p ++ c))[i]? = some t →
          (t.Holds a.length (braced p) ↔ i = before.length)) ∧
        ∀ i t, (scan (a ++ braced q ++ c))[i]? = some t →
          (t.Holds a.length (braced q) ↔ i = before.length)) ∧
    (∀ a c p, IsBalanced p → ((∃ t ∈ scan (a ++ braced p ++ c), t.Holds a.length (braced p)) ↔
      IsQuiet Int32.size (net a + 1) p)) ∧
    ∀ a p, 0 ≤ net a → IsBalanced p →
      (∀ front, front <+: p → net a + 1 + net front < Int32.size) →
      IsQuiet Int32.size (net a + 1) p := by
  refine ⟨?_, ?_, fun a p => isQuiet_of_net_lt Int32.size (net a) p⟩
  · intro a c p q hp hq hpquiet hqquiet
    obtain ⟨before, start, left, right, behind, hlength, hscan⟩ := exists_scan_around_group a c
    have hscanp := hscan p hp hpquiet
    have hscanq := hscan q hq hqquiet
    have hmoved : List.Forall₂ (IsMoved (q.length - p.length)) (behind.map (moved p.length))
        (behind.map (moved q.length)) := by
      rw [List.forall₂_map_left_iff, List.forall₂_map_right_iff, List.forall₂_same]
      intro t _
      refine ⟨rfl, ?_⟩
      simp only [moved]
      omega
    refine ⟨?_, before, _, _, start, left, right, hscanp, hscanq, hlength, hmoved, ?_, ?_⟩
    · simp only [hscanp, hscanq, List.length_append, List.length_cons, List.length_map]
    · rw [← hlength]
      exact holds_iff_of_scan _ _ left right before _ start (isTrimmed_braced p).ne_nil hscanp
    · rw [← hlength]
      exact holds_iff_of_scan _ _ left right before _ start (isTrimmed_braced q).ne_nil hscanq
  · intro a c p hp
    constructor
    · rintro ⟨t, ht, hholds⟩
      exact isQuiet_of_holds a c p t ht hholds
    · intro hquiet
      obtain ⟨before, start, left, right, behind, hlength, hscan⟩ := exists_scan_around_group a c
      refine ⟨⟨start, left ++ braced p ++ right⟩, ?_, ?_⟩
      · rw [hscan p hp hquiet]
        exact List.mem_append_right _ List.mem_cons_self
      · rw [← hlength]
        exact holds_part start left (braced p) right

/-- A payload with commas, blank ends and a group of its own, in a group that is still open and
behind a stray closing brace, and the empty payload in its place. -/
theorem payload_is_opaque_nested :
    0 ≤ net (ofString "\x7du\x7b , \x7bx ") ∧ IsBalanced (ofString " 1,\x7b2,\x7d ") ∧
      IsBalanced [] ∧
      (scan (ofString "\x7du\x7b , \x7bx \x7b\x7d y\x7d , z")).length =
        (scan (ofString "\x7du\x7b , \x7bx \x7b 1,\x7b2,\x7d \x7d y\x7d , z")).length ∧
      scan (ofString "\x7du\x7b , \x7bx \x7b 1,\x7b2,\x7d \x7d y\x7d , z") =
        [⟨0, ofString "\x7du\x7b"⟩, ⟨6, ofString "\x7bx \x7b 1,\x7b2,\x7d \x7d y\x7d"⟩,
          ⟨25, ofString "z"⟩] ∧
      scan (ofString "\x7du\x7b , \x7bx \x7b\x7d y\x7d , z") =
        [⟨0, ofString "\x7du\x7b"⟩, ⟨6, ofString "\x7bx \x7b\x7d y\x7d"⟩, ⟨17, ofString "z"⟩] := by
  have hnet : net (ofString "\x7du\x7b , \x7bx ") = 1 := by decide
  have hpayload : IsBalanced (ofString " 1,\x7b2,\x7d ") := by decide
  have hempty : IsBalanced [] := by decide
  have hnonneg : 0 ≤ net (ofString "\x7du\x7b , \x7bx ") := by decide
  obtain ⟨hexchange, -, hquiet⟩ := payload_is_opaque
  have hlow : ∀ p : Bytes, p.length ≤ 10 → ∀ front, front <+: p →
      net (ofString "\x7du\x7b , \x7bx ") + 1 + net front < Int32.size := by
    intro p hp front hfront
    have hbounds := net_bounds front
    have hle := hfront.length_le
    have hsize : (12 : Int) < Int32.size := by decide
    omega
  obtain ⟨hlength, -⟩ := hexchange (ofString "\x7du\x7b , \x7bx ") (ofString " y\x7d , z")
    (ofString " 1,\x7b2,\x7d ") [] hpayload hempty
    (hquiet _ _ hnonneg hpayload (hlow _ (by decide)))
    (hquiet _ _ hnonneg hempty (hlow _ (by decide)))
  exact ⟨hnonneg, hpayload, hempty, hlength, by decide, by decide⟩

/-- Behind a row of opening braces, the brace of a group is one more. -/
theorem replicate_openBrace_append_braced (depth : Nat) (text : Bytes) :
    List.replicate depth openBrace ++ braced text =
      List.replicate (depth + 1) openBrace ++ (text ++ [closeBrace]) := by
  rw [List.replicate_succ', List.append_assoc]
  rfl

/-- Behind 2³² - 1 opening braces, a comma that is the only byte of a payload is told wrong, and the
scan cuts there: with the empty payload in its place the line has one token less. -/
theorem scan_wrapped_in_group :
    0 ≤ net (List.replicate (Int32.size - 1) openBrace) ∧ IsBalanced [comma] ∧ IsBalanced [] ∧
      (scan (List.replicate (Int32.size - 1) openBrace ++ braced [] ++ [])).length ≠
        (scan (List.replicate (Int32.size - 1) openBrace ++ braced [comma] ++ [])).length := by
  have hsize : Int32.size - 1 + 1 = Int32.size := rfl
  have hline : List.replicate (Int32.size - 1) openBrace ++ braced [comma] ++ [] =
      List.replicate Int32.size openBrace ++ comma :: [closeBrace] := by
    rw [List.append_nil, replicate_openBrace_append_braced, hsize, List.singleton_append]
  have hopened : (scan (List.replicate Int32.size openBrace)).length = 1 := by
    rw [scan_of_isToken _ (isToken_replicate_openBrace _ _ (by decide))]
    rfl
  have hstray : (scan [closeBrace]).length = 1 := by decide
  have hcut : (scan (List.replicate (Int32.size - 1) openBrace ++ braced [comma] ++ [])).length =
      2 := by
    rw [hline, scan_append_comma _ _ closes_opened, List.length_append, List.length_map, hopened,
      hstray]
  have hnocomma : comma ∉ List.replicate (Int32.size - 1) openBrace ++ braced [] ++ [] := by
    rw [List.append_nil, replicate_openBrace_append_braced, List.mem_append]
    rintro (hmem | hmem)
    · exact absurd (List.eq_of_mem_replicate hmem) (by decide)
    · exact absurd hmem (by decide)
  refine ⟨?_, by decide, by decide, ?_⟩
  · rw [net_replicate_openBrace]
    exact Int.natCast_nonneg _
  · rw [hcut, scan_of_isQuiet _ (atCommas_of_not_mem 0 _ hnocomma)]
    have hle : (ofSegment? 0
        (List.replicate (Int32.size - 1) openBrace ++ braced [] ++ [])).toList.length ≤ 1 :=
      Option.length_toList_le
    omega

end MessageFeed.Token
