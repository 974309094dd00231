import MessageFeed.Proofs.Token.Word
import MessageFeed.Token.Segment

/-!
# Scanning undoes writing

Segments are *apart* if every text in them can stand as a token and only a text in the last of them
leaves braces open. Segments that are apart lay their texts out in the line that they make up
(`laidOut_written`), and every layout is made up by such segments (`exists_areApart_of_laidOut`).
Segments that render texts that can be told apart are apart (`Renders.areApart`). So the scan finds
what was written where it was written, and it finds nothing that could not have been written.

All this is so for words, whose depths count modulo 2³². Of texts that can be told apart by exact
counting it follows if no comma in them is told wrong (`areTokens_size`), and on lines that are told
wrong nothing more can be had: the texts found there need not be such texts
(`not_areTokens_scan_wrapped`).
-/

set_option autoImplicit false

namespace MessageFeed.Token

open Bytes

/-- Segments that can be told apart when they are written. -/
structure AreApart (period : Nat) (segments : List Segment) : Prop where
  sound : ∀ segment ∈ segments, segment.IsPadded ∧ ∀ text ∈ segment.text?, IsToken period text
  closed : ∀ segment ∈ segments.dropLast, ∀ text ∈ segment.text?, Closes period text

variable {period : Nat}

/-! ## Segments and their texts -/

/-- The texts of the tokens that are placed are those set in the segments. -/
theorem map_text_placed (start : Nat) (segments : List Segment) :
    (placed start segments).map Token.text = segments.filterMap Segment.text? := by
  induction segments generalizing start with
  | nil => rfl
  | cons segment more ih =>
    rw [placed, List.map_append, ih]
    cases segment with
    | blank pad => rfl
    | around left text right => rfl

/-- A single segment is a line by itself. -/
theorem written_singleton (segment : Segment) : written [segment] = segment.bytes := by
  simp [written, join]

/-- The first segment of a line, and behind a comma the others. -/
theorem written_cons_cons (segment next : Segment) (more : List Segment) :
    written (segment :: next :: more) = segment.bytes ++ comma :: written (next :: more) := by
  simp [written, join, List.intercalate_cons_cons]

/-- The text of a single segment may leave braces open. -/
theorem areApart_singleton_iff (segment : Segment) :
    AreApart period [segment] ↔
      segment.IsPadded ∧ ∀ text ∈ segment.text?, IsToken period text := by
  constructor
  · intro h
    exact h.sound segment (List.mem_singleton_self segment)
  · intro h
    exact ⟨by simpa using h, by simp⟩

/-- A segment with others behind it is apart from them if its text closes what it opens. -/
theorem areApart_cons_cons_iff (segment next : Segment) (more : List Segment) :
    AreApart period (segment :: next :: more) ↔
      (segment.IsPadded ∧ ∀ text ∈ segment.text?, IsToken period text) ∧
        (∀ text ∈ segment.text?, Closes period text) ∧ AreApart period (next :: more) := by
  constructor
  · rintro ⟨hsound, hclosed⟩
    rw [List.forall_mem_cons] at hsound
    rw [List.dropLast_cons_cons, List.forall_mem_cons] at hclosed
    exact ⟨hsound.1, hclosed.1, hsound.2, hclosed.2⟩
  · rintro ⟨hsegment, hclosed, hmore⟩
    refine ⟨List.forall_mem_cons.mpr ⟨hsegment, hmore.sound⟩, ?_⟩
    rw [List.dropLast_cons_cons]
    exact List.forall_mem_cons.mpr ⟨hclosed, hmore.closed⟩

/-! ## Segments that are apart are the layouts -/

/-- Segments that are apart lay their texts out in their line. -/
theorem laidOut_written (start : Nat) (segments : List Segment) (h : AreApart period segments) :
    LaidOut period start (placed start segments) (written segments) := by
  induction segments generalizing start with
  | nil => exact .padding isPadding_nil
  | cons segment more ih =>
    cases more with
    | nil =>
      obtain ⟨hpadded, htoken⟩ := (areApart_singleton_iff segment).mp h
      rw [written_singleton]
      cases segment with
      | blank pad => exact .padding hpadded
      | around left text right => exact .last hpadded.1 (htoken text rfl) hpadded.2
    | cons next more =>
      obtain ⟨⟨hpadded, htoken⟩, hclosed, hmore⟩ := (areApart_cons_cons_iff segment next more).mp h
      have hrest := ih (start + segment.bytes.length + 1) hmore
      rw [written_cons_cons]
      cases segment with
      | blank pad => exact .skip hpadded hrest
      | around left text right =>
        have hlength : start + (left ++ text ++ right).length + 1 =
            start + left.length + text.length + right.length + 1 := by
          simp only [List.length_append]
          omega
        apply LaidOut.next hpadded.1 (htoken text rfl) (hclosed text rfl) hpadded.2
        rwa [← hlength]

/-- Whatever is laid out in a line, the line is made up by segments that are apart. -/
theorem exists_areApart_of_laidOut (start : Nat) (tokens : List Token) (line : Bytes)
    (h : LaidOut period start tokens line) :
    ∃ segment more, AreApart period (segment :: more) ∧ written (segment :: more) = line := by
  induction h with
  | @padding start pad blank =>
    refine ⟨.blank pad, [], ?_, written_singleton _⟩
    exact (areApart_singleton_iff _).mpr ⟨blank, by simp [Segment.text?]⟩
  | @last start left text right blank_left token blank_right =>
    refine ⟨.around left text right, [], ?_, written_singleton _⟩
    exact (areApart_singleton_iff _).mpr
      ⟨⟨blank_left, blank_right⟩, by simpa [Segment.text?] using token⟩
  | @skip start tokens pad rest blank _ ih =>
    obtain ⟨next, more, hmore, rfl⟩ := ih
    refine ⟨.blank pad, next :: more, ?_, written_cons_cons _ _ _⟩
    rw [areApart_cons_cons_iff]
    exact ⟨⟨blank, by simp [Segment.text?]⟩, by simp [Segment.text?], hmore⟩
  | @next start tokens left text right rest blank_left token closed blank_right _ ih =>
    obtain ⟨next, more, hmore, rfl⟩ := ih
    refine ⟨.around left text right, next :: more, ?_, written_cons_cons _ _ _⟩
    rw [areApart_cons_cons_iff]
    exact ⟨⟨⟨blank_left, blank_right⟩, by simpa [Segment.text?] using token⟩,
      by simpa [Segment.text?] using closed, hmore⟩

/-! ## Renderings -/

/-- Segments that render texts that can be told apart are apart. -/
theorem Renders.areApart {texts : List Bytes} {segments : List Segment}
    (h : Renders period texts segments) (htexts : AreTokens period texts) :
    AreApart period segments := by
  obtain ⟨rfl, hpadded, hlast⟩ := h
  obtain ⟨htoken, hclosed⟩ := htexts
  refine ⟨?_, ?_⟩
  · intro segment hsegment
    refine ⟨hpadded segment hsegment, ?_⟩
    intro text htext
    exact htoken text (List.mem_filterMap.mpr ⟨segment, hsegment, htext⟩)
  · intro segment hsegment text htext
    obtain rfl | ⟨init, last, rfl⟩ := List.eq_nil_or_concat' segments
    · cases hsegment
    · rw [List.dropLast_concat] at hsegment
      have hmem : text ∈ init.filterMap Segment.text? :=
        List.mem_filterMap.mpr ⟨segment, hsegment, htext⟩
      rw [List.filterMap_append] at hclosed hlast
      -- The text is before the last one, unless a blank segment follows the last one.
      cases last with
      | blank pad =>
        simp only [List.filterMap_cons, List.filterMap_nil, Segment.text?, List.append_nil]
          at hclosed hlast
        by_cases htop : some text = (init.filterMap Segment.text?).getLast?
        · exact hlast pad (by simp) text htop.symm
        · exact hclosed text (List.mem_dropLast_of_mem_of_ne_getLast? hmem htop)
      | around left other right =>
        apply hclosed text
        simpa [Segment.text?] using hmem

/-- Segments that are apart render the texts that are set in them. -/
theorem AreApart.renders {segments : List Segment} (h : AreApart period segments) :
    Renders period (segments.filterMap Segment.text?) segments := by
  refine ⟨rfl, fun segment hsegment => (h.sound segment hsegment).1, ?_⟩
  intro pad hpad text htext
  obtain ⟨init, rfl⟩ := List.getLast?_eq_some_iff.mp hpad
  obtain ⟨segment, hsegment, hset⟩ := List.mem_filterMap.mp (List.mem_of_getLast? htext)
  apply h.closed segment
  · rw [List.dropLast_concat]
    rcases List.mem_append.mp hsegment with hinit | hlast
    · exact hinit
    · rw [List.mem_singleton.mp hlast] at hset
      cases hset
  · exact hset

/-! ## The scan of a written line -/

/-- The scan of a line finds the texts of its segments where they were set. -/
theorem scan_written (segments : List Segment) (h : AreApart Int32.size segments) :
    scan (written segments) = placed 0 segments :=
  (scan_eq_iff_laidOut _ _).mpr (laidOut_written 0 segments h)

/-- Texts that can be told apart are found where they are joined. -/
theorem map_text_scan_join (texts : List Bytes) (h : AreTokens Int32.size texts) :
    (scan (join texts)).map Token.text = texts := by
  obtain ⟨tokens, hlaid, htexts⟩ := exists_laidOut_join 0 texts h
  rw [(scan_eq_iff_laidOut _ tokens).mpr hlaid, htexts]

/-- Every line is a rendering of what the scan finds in it. -/
theorem exists_renders_scan (line : Bytes) :
    ∃ segments, Renders Int32.size ((scan line).map Token.text) segments ∧
      written segments = line := by
  obtain ⟨segment, more, hapart, hline⟩ :=
    exists_areApart_of_laidOut 0 _ line (laidOut_scan line)
  have hscan := scan_written (segment :: more) hapart
  refine ⟨segment :: more, ?_, hline⟩
  rw [← hline, hscan, map_text_placed]
  exact hapart.renders

/-- The texts that are found in lines that are told right are those that can be told apart by exact
counting and in which no comma is told wrong. -/
theorem areTokens_zero_iff_exists_tellsTop (texts : List Bytes) :
    (AreTokens 0 texts ∧ ∀ text ∈ texts, TellsTop text) ↔
      ∃ line, TellsTop line ∧ (scan line).map Token.text = texts := by
  constructor
  · rintro ⟨htexts, htells⟩
    obtain ⟨tokens, hlaid, hsame⟩ := exists_laidOut_join 0 texts htexts
    have htokens : ∀ t ∈ tokens, TellsTop t.text := by
      intro t ht
      apply htells
      rw [← hsame]
      exact List.mem_map_of_mem ht
    exact ⟨join texts, (tellsTop_of_laidOut 0 tokens _ hlaid htokens).2,
      map_text_scan_join texts (areTokens_size texts htexts htells)⟩
  · rintro ⟨line, hline, rfl⟩
    refine ⟨areTokens_of_laidOut 0 _ line ((laidOut_zero_scan_iff line).mpr hline), ?_⟩
    intro text htext
    exact ((isToken_size_iff text).mp ((areTokens_scan line).1 text htext)).2

/-- Texts that are rendered for exact counting are rendered for words. -/
theorem Renders.size {texts : List Bytes} {segments : List Segment} (h : Renders 0 texts segments) :
    Renders Int32.size texts segments where
  texts_eq := h.texts_eq
  padded := h.padded
  closed pad hpad text htext := (h.closed pad hpad text htext).of_zero _

/-- **Scanning undoes writing.** Take the lines in which no comma is told wrong. Texts are what a
scan finds in such a line if and only if they can be told apart and no comma in them is told wrong.
However such texts are rendered, the scan of the line finds exactly them, each at the offset at
which it was set.

The tokens of any line whatever, joined with commas and nothing else, are found again. Counted
modulo 2³², the texts that a scan finds in lines are all those that can be told apart, and every
line is a rendering of what the scan finds in it. -/
theorem scan_undoes_writing :
    (∀ texts, (AreTokens 0 texts ∧ ∀ text ∈ texts, TellsTop text) ↔
      ∃ line, TellsTop line ∧ (scan line).map Token.text = texts) ∧
    (∀ texts segments, AreTokens 0 texts → (∀ text ∈ texts, TellsTop text) →
      Renders 0 texts segments →
      scan (written segments) = placed 0 segments ∧
        (placed 0 segments).map Token.text = texts) ∧
    (∀ line, (scan (join ((scan line).map Token.text))).map Token.text =
      (scan line).map Token.text) ∧
    (∀ texts, AreTokens Int32.size texts ↔ ∃ line, (scan line).map Token.text = texts) ∧
    ∀ line, ∃ segments, Renders Int32.size ((scan line).map Token.text) segments ∧
      written segments = line := by
  refine ⟨areTokens_zero_iff_exists_tellsTop, ?_, ?_, ?_, exists_renders_scan⟩
  · intro texts segments htexts htells hrenders
    have hapart := hrenders.size.areApart (areTokens_size texts htexts htells)
    refine ⟨scan_written segments hapart, ?_⟩
    rw [map_text_placed, hrenders.texts_eq]
  · intro line
    exact map_text_scan_join _ (areTokens_scan line)
  · intro texts
    constructor
    · intro h
      exact ⟨join texts, map_text_scan_join texts h⟩
    · rintro ⟨line, rfl⟩
      exact areTokens_scan line

/-- The texts `}b,c{`, `u` and `{x,y` with blank segments before, between and padding around them.
The first has a comma below depth zero, and the last leaves a brace open, so nothing may follow
it. -/
theorem scan_undoes_writing_unbalanced :
    AreTokens 0 [ofString "\x7db,c\x7b", ofString "u", ofString "\x7bx,y"] ∧
      (∀ text ∈ [ofString "\x7db,c\x7b", ofString "u", ofString "\x7bx,y"], TellsTop text) ∧
      Renders 0 [ofString "\x7db,c\x7b", ofString "u", ofString "\x7bx,y"]
        [.blank (ofString " \t"), .around (ofString " ") (ofString "\x7db,c\x7b") [], .blank [],
          .around [] (ofString "u") (ofString " "),
          .around (ofString "\n") (ofString "\x7bx,y") (ofString " ")] ∧
      scan (ofString " \t, \x7db,c\x7b,,u ,\n\x7bx,y ") =
        [⟨4, ofString "\x7db,c\x7b"⟩, ⟨11, ofString "u"⟩, ⟨15, ofString "\x7bx,y"⟩] := by
  have hline : TellsTop (ofString "\x7db,c\x7b,u,\x7bx,y") :=
    tellsTop_of_length_le _ (by decide)
  obtain ⟨htexts, htells⟩ := (areTokens_zero_iff_exists_tellsTop
    [ofString "\x7db,c\x7b", ofString "u", ofString "\x7bx,y"]).mpr ⟨_, hline, by decide⟩
  have hrenders : Renders 0 [ofString "\x7db,c\x7b", ofString "u", ofString "\x7bx,y"]
      [.blank (ofString " \t"), .around (ofString " ") (ofString "\x7db,c\x7b") [], .blank [],
        .around [] (ofString "u") (ofString " "),
        .around (ofString "\n") (ofString "\x7bx,y") (ofString " ")] := by
    refine ⟨rfl, by decide, ?_⟩
    intro pad hpad
    cases hpad
  exact ⟨htexts, htells, hrenders, (scan_undoes_writing.2.1 _ _ htexts htells hrenders).1⟩

/-- Behind 2³² opening braces a comma is told wrong, and the scan finds a text in front of it that
leaves all of them open. -/
theorem scan_wrapped_not_areTokens : ¬ AreTokens 0 ((scan wrapped).map Token.text) := by
  rw [scan_wrapped]
  exact not_areTokens_opened

end MessageFeed.Token
