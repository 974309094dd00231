import MessageFeed.Proofs.Token.Depth
import MessageFeed.Token.Layout
import Mathlib.Data.List.DropRight
import Mathlib.Data.List.Induction

/-!
# The scan finds the layout

A text is *quiet* at a depth if a scan that reaches it at that depth finds no comma on the top level
in it. The scan takes a quiet text into the open segment as a whole (`foldl_step_of_isQuiet`), so it
recovers the tokens of every layout (`close_foldl_of_laidOut`). On the other hand every text is laid
out somehow (`exists_laidOut`): cut it at its first top-level comma, take the blank ends away from
what is before, and go on behind the comma. Together they make the layout of a text unique, and the
scan the function that finds it (`scanIn_eq_iff_laidOut`).

The period is the one that the depths of the scan count modulo. So lines as they are read have the
layout for words (`scan_eq_iff_laidOut`).
-/

set_option autoImplicit false

namespace MessageFeed.Token

open Bytes

/-- What holds of the depth at every comma of a text that begins at the depth given. -/
def AtCommas (holds : Int → Prop) (depth : Int) (text : Bytes) : Prop :=
  ∀ before after, text = before ++ comma :: after → holds (depth + net before)

/-- No comma of a text stands on the top level, if the text begins at the depth given. -/
def IsQuiet (period : Nat) (depth : Int) (text : Bytes) : Prop :=
  AtCommas (fun d => ¬ (period : Int) ∣ d) depth text

/-! ## Commas -/

section Commas

variable {holds : Int → Prop}

/-- Without a comma there is nothing to hold. -/
theorem atCommas_of_not_mem (depth : Int) (text : Bytes) (h : comma ∉ text) :
    AtCommas holds depth text := by
  rintro before after rfl
  exact absurd (List.mem_append_right before List.mem_cons_self) h

/-- There is no comma in the empty text. -/
theorem atCommas_nil (depth : Int) : AtCommas holds depth [] :=
  atCommas_of_not_mem depth [] List.not_mem_nil

/-- The commas of a text are its first byte, if that is one, and those behind it. -/
theorem atCommas_cons_iff (depth : Int) (b : UInt8) (text : Bytes) :
    AtCommas holds depth (b :: text) ↔
      (b = comma → holds depth) ∧ AtCommas holds (depth + net [b]) text := by
  constructor
  · intro h
    constructor
    · rintro rfl
      simpa using h [] text rfl
    · rintro before after rfl
      have hcomma := h (b :: before) after rfl
      rwa [net_cons, ← Int.add_assoc] at hcomma
  · rintro ⟨hb, htext⟩ before after hsplit
    cases before with
    | nil =>
      obtain ⟨rfl, rfl⟩ := List.cons.inj hsplit
      simpa using hb rfl
    | cons c before =>
      obtain ⟨rfl, rfl⟩ := List.cons.inj hsplit
      have hcomma := htext before after rfl
      rwa [net_cons, ← Int.add_assoc]

/-- The commas of a text are those of its two parts, each at the depth at which the part begins. -/
theorem atCommas_append_iff (depth : Int) (a b : Bytes) :
    AtCommas holds depth (a ++ b) ↔
      AtCommas holds depth a ∧ AtCommas holds (depth + net a) b := by
  induction a generalizing depth with
  | nil => simp [atCommas_nil]
  | cons c a ih =>
    rw [List.cons_append, atCommas_cons_iff, atCommas_cons_iff, ih, net_cons c a, and_assoc,
      Int.add_assoc]

end Commas

/-! ## Padding -/

/-- A blank byte is none of those that a scan looks at. -/
theorem not_comma_nor_brace_of_isBlank (b : UInt8) (h : isBlank b = true) :
    b ≠ comma ∧ b ≠ openBrace ∧ b ≠ closeBrace := by
  refine ⟨?_, ?_, ?_⟩ <;> rintro rfl <;> exact absurd h (by decide)

/-- Padding leaves nothing open. -/
theorem net_of_isPadding (pad : Bytes) (h : IsPadding pad) : net pad = 0 := by
  have hopen : pad.count openBrace = 0 := List.count_eq_zero.mpr fun hmem =>
    (not_comma_nor_brace_of_isBlank _ (h _ hmem)).2.1 rfl
  have hclose : pad.count closeBrace = 0 := List.count_eq_zero.mpr fun hmem =>
    (not_comma_nor_brace_of_isBlank _ (h _ hmem)).2.2 rfl
  simp [net, hopen, hclose]

/-- There is no comma in padding. -/
theorem atCommas_of_isPadding (holds : Int → Prop) (depth : Int) (pad : Bytes)
    (h : IsPadding pad) : AtCommas holds depth pad := by
  apply atCommas_of_not_mem
  intro hcomma
  exact (not_comma_nor_brace_of_isBlank comma (h comma hcomma)).1 rfl

/-- Padding around a text leaves its net as it is. -/
theorem net_padded (left text right : Bytes) (hleft : IsPadding left) (hright : IsPadding right) :
    net (left ++ text ++ right) = net text := by
  rw [net_append, net_append, net_of_isPadding left hleft, net_of_isPadding right hright]
  omega

/-- A text with padding around it closes what it opens if the text does. -/
theorem closes_padded_iff (period : Nat) (left text right : Bytes) (hleft : IsPadding left)
    (hright : IsPadding right) : Closes period (left ++ text ++ right) ↔ Closes period text := by
  rw [Closes, Closes, net_padded left text right hleft hright]

/-- The commas of a text with padding around it are those of the text. -/
theorem atCommas_padded_iff (holds : Int → Prop) (left text right : Bytes) (hleft : IsPadding left)
    (hright : IsPadding right) :
    AtCommas holds 0 (left ++ text ++ right) ↔ AtCommas holds 0 text := by
  rw [atCommas_append_iff, atCommas_append_iff, net_of_isPadding left hleft, Int.add_zero]
  constructor
  · rintro ⟨⟨-, htext⟩, -⟩
    exact htext
  · intro htext
    exact ⟨⟨atCommas_of_isPadding holds 0 left hleft, htext⟩,
      atCommas_of_isPadding holds _ right hright⟩

/-! ## Quiet texts -/

section Quiet

variable {period : Nat}

/-- A text is quiet if both of its parts are, each at the depth at which it begins. -/
theorem isQuiet_append_iff (depth : Int) (a b : Bytes) :
    IsQuiet period depth (a ++ b) ↔ IsQuiet period depth a ∧ IsQuiet period (depth + net a) b :=
  atCommas_append_iff depth a b

/-- A single byte is quiet unless it is a comma on the top level. -/
theorem isQuiet_singleton_iff (depth : Int) (b : UInt8) :
    IsQuiet period depth [b] ↔ ¬ (b = comma ∧ (period : Int) ∣ depth) := by
  rw [IsQuiet, atCommas_cons_iff, and_iff_left (atCommas_nil _), not_and]

/-- At depth zero a comma is on the top level if what is before it closes what it opens. -/
theorem isQuiet_zero_iff (text : Bytes) :
    IsQuiet period 0 text ↔
      ∀ before after, text = before ++ comma :: after → ¬ Closes period before := by
  unfold IsQuiet AtCommas Closes
  simp only [Int.zero_add]

/-- A token is quiet at depth zero. -/
theorem IsToken.isQuiet {text : Bytes} (h : IsToken period text) : IsQuiet period 0 text :=
  (isQuiet_zero_iff text).mpr h.no_top_comma

/-- Padding is quiet at every depth. -/
theorem isQuiet_of_isPadding (depth : Int) (pad : Bytes) (h : IsPadding pad) :
    IsQuiet period depth pad :=
  atCommas_of_isPadding _ depth pad h

/-- A text with padding around it is quiet if the text is. -/
theorem isQuiet_padded_iff (left text right : Bytes) (hleft : IsPadding left)
    (hright : IsPadding right) :
    IsQuiet period 0 (left ++ text ++ right) ↔ IsQuiet period 0 text :=
  atCommas_padded_iff _ left text right hleft hright

end Quiet

variable {period : Nat}

/-! ## The token of a segment -/

/-- A trimmed text that is quiet is a token. -/
theorem IsTrimmed.isToken {text : Bytes} (h : IsTrimmed text) (hquiet : IsQuiet period 0 text) :
    IsToken period text where
  toIsTrimmed := h
  no_top_comma := (isQuiet_zero_iff text).mp hquiet

/-- A blank segment has no token. -/
theorem ofSegment?_of_isPadding (start : Nat) (pad : Bytes) (h : IsPadding pad) :
    ofSegment? start pad = none := by
  have hdrop : pad.dropWhile isBlank = [] := List.dropWhile_eq_nil_iff.mpr h
  simp [ofSegment?, hdrop, trimEnd]

/-- Trimming the end of a text takes away the padding behind its last byte that is not blank. -/
theorem trimEnd_append (text right : Bytes) (htext : IsTrimmed text) (hright : IsPadding right) :
    trimEnd (text ++ right) = text := by
  have hpad : ∀ b ∈ right.reverse, isBlank b = true := fun b hb => hright b (List.mem_reverse.mp hb)
  have hkeep : text.rdropWhile isBlank = text := by
    rw [List.rdropWhile_eq_self_iff]
    intro hne
    have hlast := htext.last_not_blank _ (List.getLast?_eq_some_getLast hne)
    simp [hlast]
  rw [trimEnd, List.reverse_append, List.dropWhile_append_of_pos hpad]
  exact hkeep

/-- The token of a segment is what is between its blank ends. -/
theorem ofSegment?_of_isTrimmed (start : Nat) (left text right : Bytes) (hleft : IsPadding left)
    (htext : IsTrimmed text) (hright : IsPadding right) :
    ofSegment? start (left ++ text ++ right) = some ⟨start + left.length, text⟩ := by
  obtain ⟨b, more, rfl⟩ := List.exists_cons_of_ne_nil htext.ne_nil
  have hb : isBlank b = false := htext.head_not_blank b rfl
  have hdrop : (left ++ (b :: more ++ right)).dropWhile isBlank = b :: more ++ right := by
    rw [List.dropWhile_append_of_pos hleft]
    simp [hb]
  have htake : (left ++ (b :: more ++ right)).takeWhile isBlank = left := by
    rw [List.takeWhile_append_of_pos hleft]
    simp [hb]
  have htrim : trimEnd (b :: more ++ right) = b :: more := trimEnd_append _ right htext hright
  rw [ofSegment?, List.append_assoc, hdrop, htrim, htake]

/-- A segment is blank, or it has a text between its blank ends. -/
theorem isPadding_or_exists_isTrimmed (segment : Bytes) :
    IsPadding segment ∨ ∃ left text right, segment = left ++ text ++ right ∧
      IsPadding left ∧ IsTrimmed text ∧ IsPadding right := by
  have hsegment := List.takeWhile_append_dropWhile (p := isBlank) (l := segment)
  cases hbody : segment.dropWhile isBlank with
  | nil => exact .inl (List.dropWhile_eq_nil_iff.mp hbody)
  | cons b more =>
    right
    have hb : isBlank b = false := by
      have hhead := List.head?_dropWhile_not isBlank segment
      rwa [hbody] at hhead
    have hsplit := List.rdropWhile_append_rtakeWhile (p := isBlank) (l := b :: more)
    have hne : (b :: more).rdropWhile isBlank ≠ [] := by
      intro hnil
      have hblank := List.rdropWhile_eq_nil_iff.mp hnil b (by simp)
      simp [hb] at hblank
    refine ⟨segment.takeWhile isBlank, (b :: more).rdropWhile isBlank,
      (b :: more).rtakeWhile isBlank, ?_, fun c hc => List.mem_takeWhile_imp hc, ⟨hne, ?_, ?_⟩,
      fun c hc => List.mem_rtakeWhile_imp hc⟩
    · rw [List.append_assoc, hsplit, ← hbody, hsegment]
    · intro c hc
      have hhead := @List.head?_append_of_ne_nil _ _ ((b :: more).rtakeWhile isBlank) hne
      rw [hsplit, hc] at hhead
      rw [← Option.some.inj hhead, hb]
    · intro c hc
      have hlast := List.rdropWhile_last_not isBlank (b :: more) hne
      rw [List.getLast?_eq_some_getLast hne] at hc
      simpa [Option.some.inj hc] using hlast

/-! ## The scan of a layout -/

section Scan

variable {δ : Type} [OfNat δ 0] [OfNat δ 1] [Add δ] [Sub δ] [DecidableEq δ]

/-- A quiet text joins the open segment as a whole. -/
theorem foldl_step_of_isQuiet (hδ : Scan.CountsModulo δ period) (start : Nat) (text : Bytes)
    (found : List Token) (h : IsQuiet period 0 text) :
    text.foldl Scan.step (⟨0, start, [], found⟩ : Scan δ) =
      ⟨text.foldl Scan.deepen 0, start, text.reverse, found⟩ := by
  induction text using List.reverseRecOn with
  | nil => rfl
  | append_singleton text b ih =>
    obtain ⟨htext, hlast⟩ := (isQuiet_append_iff 0 text [b]).mp h
    rw [isQuiet_singleton_iff, Int.zero_add] at hlast
    -- The depth behind the text is zero if and only if the text closes what it opens.
    have hcut : ¬ (b = comma ∧ text.foldl Scan.deepen (0 : δ) = 0) := by
      rintro ⟨hb, hdepth⟩
      exact hlast ⟨hb, (hδ text).mp hdepth⟩
    rw [List.foldl_concat, ih htext, Scan.step, if_neg hcut, List.foldl_concat, List.reverse_concat]

/-- A quiet segment that is closed at its end gives its one token. -/
theorem close_foldl_of_isQuiet (hδ : Scan.CountsModulo δ period) (start : Nat) (segment : Bytes)
    (found : List Token) (h : IsQuiet period 0 segment) :
    (segment.foldl Scan.step (⟨0, start, [], found⟩ : Scan δ)).close =
      (ofSegment? start segment).toList ++ found := by
  rw [foldl_step_of_isQuiet hδ start segment found h]
  simp [Scan.close]

/-- A comma behind a quiet segment that opens as much as it closes ends the segment. -/
theorem foldl_step_segment (hδ : Scan.CountsModulo δ period) (start : Nat) (segment rest : Bytes)
    (found : List Token) (h : IsQuiet period 0 segment) (hclosed : Closes period segment) :
    (segment ++ comma :: rest).foldl Scan.step (⟨0, start, [], found⟩ : Scan δ) =
      rest.foldl Scan.step
        ⟨0, start + segment.length + 1, [], (ofSegment? start segment).toList ++ found⟩ := by
  have hdepth : segment.foldl Scan.deepen (0 : δ) = 0 := (hδ segment).mpr hclosed
  rw [List.foldl_append, foldl_step_of_isQuiet hδ start segment found h, List.foldl_cons, hdepth]
  simp [Scan.step, Scan.close]

/-- The scan of a text, begun where the text begins, finds the tokens that are laid out in it. -/
theorem close_foldl_of_laidOut (hδ : Scan.CountsModulo δ period) (start : Nat)
    (tokens : List Token) (text : Bytes) (found : List Token)
    (h : LaidOut period start tokens text) :
    (text.foldl Scan.step (⟨0, start, [], found⟩ : Scan δ)).close = tokens.reverse ++ found := by
  induction h generalizing found with
  | @padding start pad blank =>
    rw [close_foldl_of_isQuiet hδ _ _ _ (isQuiet_of_isPadding 0 pad blank),
      ofSegment?_of_isPadding start pad blank]
    rfl
  | @last start left text right blank_left token blank_right =>
    have hquiet := (isQuiet_padded_iff left text right blank_left blank_right).mpr token.isQuiet
    rw [close_foldl_of_isQuiet hδ _ _ _ hquiet,
      ofSegment?_of_isTrimmed start left text right blank_left token.toIsTrimmed blank_right]
    rfl
  | @skip start tokens pad rest blank _ ih =>
    have hclosed := closes_of_net_eq_zero period pad (net_of_isPadding pad blank)
    rw [foldl_step_segment hδ _ _ _ _ (isQuiet_of_isPadding 0 pad blank) hclosed,
      ofSegment?_of_isPadding start pad blank]
    exact ih found
  | @next start tokens left text right rest blank_left token closed blank_right _ ih =>
    have hquiet := (isQuiet_padded_iff left text right blank_left blank_right).mpr token.isQuiet
    have hclosed := (closes_padded_iff period left text right blank_left blank_right).mpr closed
    rw [foldl_step_segment hδ _ _ _ _ hquiet hclosed,
      ofSegment?_of_isTrimmed start left text right blank_left token.toIsTrimmed blank_right]
    have hlength : start + (left ++ text ++ right).length + 1 =
        start + left.length + text.length + right.length + 1 := by
      simp only [List.length_append]
      omega
    rw [hlength, ih]
    simp

end Scan

/-! ## Every text is laid out -/

/-- A text is quiet, or it has a first comma on the top level. -/
theorem isQuiet_or_exists_top_comma (period : Nat) (depth : Int) (text : Bytes) :
    IsQuiet period depth text ∨
      ∃ a b, text = a ++ comma :: b ∧ IsQuiet period depth a ∧ (period : Int) ∣ depth + net a := by
  induction text using List.reverseRecOn with
  | nil => exact .inl (atCommas_nil depth)
  | append_singleton text c ih =>
    rcases ih with hquiet | ⟨a, b, rfl, hquiet, hnet⟩
    · by_cases htop : c = comma ∧ (period : Int) ∣ depth + net text
      · obtain ⟨rfl, hnet⟩ := htop
        exact .inr ⟨text, [], rfl, hquiet, hnet⟩
      · left
        rw [isQuiet_append_iff, isQuiet_singleton_iff]
        exact ⟨hquiet, htop⟩
    · exact .inr ⟨a, b ++ [c], by simp, hquiet, hnet⟩

/-- A text is one quiet segment, or a quiet segment that closes what it opens with more behind it.
-/
theorem isQuiet_or_exists_segment (period : Nat) (text : Bytes) :
    IsQuiet period 0 text ∨
      ∃ a b, text = a ++ comma :: b ∧ IsQuiet period 0 a ∧ Closes period a := by
  unfold Closes
  simpa only [Int.zero_add] using isQuiet_or_exists_top_comma period 0 text

/-- Every text is laid out somehow. -/
theorem exists_laidOut (period start : Nat) (text : Bytes) :
    ∃ tokens, LaidOut period start tokens text := by
  rcases isQuiet_or_exists_segment period text with hquiet |
    ⟨segment, rest, hsplit, hquiet, hclosed⟩
  · rcases isPadding_or_exists_isTrimmed text with hpad | ⟨left, body, right, rfl, hl, hbody, hr⟩
    · exact ⟨[], .padding hpad⟩
    · have htoken := hbody.isToken ((isQuiet_padded_iff left body right hl hr).mp hquiet)
      exact ⟨_, .last hl htoken hr⟩
  · -- The text goes on behind its first top-level comma, and what is left is shorter.
    rw [hsplit]
    rcases isPadding_or_exists_isTrimmed segment with hpad | ⟨left, body, right, rfl, hl, hbody, hr⟩
    · obtain ⟨tokens, hrest⟩ := exists_laidOut period (start + segment.length + 1) rest
      exact ⟨tokens, .skip hpad hrest⟩
    · have htoken := hbody.isToken ((isQuiet_padded_iff left body right hl hr).mp hquiet)
      have hbodyClosed := (closes_padded_iff period left body right hl hr).mp hclosed
      obtain ⟨tokens, hrest⟩ :=
        exists_laidOut period (start + left.length + body.length + right.length + 1) rest
      exact ⟨_, .next hl htoken hbodyClosed hr hrest⟩
termination_by text.length
decreasing_by
  all_goals
    rw [hsplit]
    simp only [List.length_append, List.length_cons]
    omega

/-- **The scan of a line finds the one way in which tokens are laid out in it**, if groups are
counted as the depths of the scan count. -/
theorem scanIn_eq_iff_laidOut {δ : Type} [OfNat δ 0] [OfNat δ 1] [Add δ] [Sub δ] [DecidableEq δ]
    (hδ : Scan.CountsModulo δ period) (line : Bytes) (tokens : List Token) :
    scanIn δ line = tokens ↔ LaidOut period 0 tokens line := by
  have hscan : ∀ found, LaidOut period 0 found line → scanIn δ line = found := by
    intro found h
    have hclose := close_foldl_of_laidOut hδ 0 found line [] h
    rw [scanIn, Scan.ofLine, Scan.fresh, hclose]
    simp
  constructor
  · rintro rfl
    obtain ⟨found, h⟩ := exists_laidOut period 0 line
    rw [hscan found h]
    exact h
  · exact hscan tokens

/-- The tokens of a line are the ones laid out in it for words. -/
theorem scan_eq_iff_laidOut (line : Bytes) (tokens : List Token) :
    scan line = tokens ↔ LaidOut Int32.size 0 tokens line :=
  scanIn_eq_iff_laidOut Scan.countsModulo_word line tokens

/-- A line is laid out as its tokens say. -/
theorem laidOut_scan (line : Bytes) : LaidOut Int32.size 0 (scan line) line :=
  (scan_eq_iff_laidOut line _).mp rfl

/-! ## The texts of a layout -/

/-- The texts of tokens that are laid out can be told apart. -/
theorem areTokens_of_laidOut (start : Nat) (tokens : List Token) (text : Bytes)
    (h : LaidOut period start tokens text) : AreTokens period (tokens.map Token.text) := by
  induction h with
  | padding => simp [AreTokens]
  | last _ token _ => simpa [AreTokens] using token
  | skip _ _ ih => exact ih
  | @next start tokens left text right rest _ token closed _ _ ih =>
    obtain ⟨htokens, hclosed⟩ := ih
    constructor
    · simpa using ⟨token, by simpa using htokens⟩
    · intro t ht
      cases htail : tokens.map Token.text with
      | nil => simp [htail] at ht
      | cons second more =>
        rw [List.map_cons, htail, List.dropLast_cons_cons] at ht
        rcases List.mem_cons.mp ht with rfl | ht
        · exact closed
        · exact hclosed t (by rwa [htail])

/-- The texts of the tokens of a line can be told apart. -/
theorem areTokens_scan (line : Bytes) : AreTokens Int32.size ((scan line).map Token.text) :=
  areTokens_of_laidOut 0 _ line (laidOut_scan line)

/-- Nothing is padding. -/
theorem isPadding_nil : IsPadding [] := fun _ h => absurd h List.not_mem_nil

/-- Texts that can be told apart are laid out where they are joined with commas and nothing else. -/
theorem exists_laidOut_join (start : Nat) (texts : List Bytes) (h : AreTokens period texts) :
    ∃ tokens, LaidOut period start tokens (join texts) ∧ tokens.map Token.text = texts := by
  obtain ⟨htokens, hclosed⟩ := h
  induction texts generalizing start with
  | nil => exact ⟨[], .padding isPadding_nil, rfl⟩
  | cons text texts ih =>
    have htoken : IsToken period text := htokens text (by simp)
    cases texts with
    | nil =>
      have hlast : LaidOut period start _ ([] ++ text ++ []) :=
        .last isPadding_nil htoken isPadding_nil
      exact ⟨_, by simpa [join] using hlast, rfl⟩
    | cons second more =>
      have hfirst : Closes period text := hclosed text (by simp)
      obtain ⟨tokens, hlaid, htexts⟩ := ih (start + text.length + 1)
        (fun t ht => htokens t (List.mem_cons_of_mem text ht))
        (fun t ht => hclosed t (by rw [List.dropLast_cons_cons]; exact List.mem_cons_of_mem _ ht))
      have hnext : LaidOut period start _ ([] ++ text ++ [] ++ comma :: join (second :: more)) :=
        .next isPadding_nil htoken hfirst isPadding_nil (by simpa using hlaid)
      refine ⟨_, by simpa [join, List.intercalate_cons_cons] using hnext, ?_⟩
      rw [List.map_cons, htexts]

end MessageFeed.Token
