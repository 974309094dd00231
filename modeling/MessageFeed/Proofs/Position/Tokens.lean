import MessageFeed.Proofs.Position.Lines
import MessageFeed.Proofs.Token.Scan

/-!
# Tokens found by position

The cursor of a reading by position goes along with the scan of the line: after each byte it holds
the depth of the scan, the start of its open segment and its tokens (`foldlM_step_eq_ok`). At a
comma that ends the segment, the segment is the slice of the line from the start up to the comma,
and trimming it by the first and the last byte that are not blank gives its token
(`token?_eq_ok`). So the tokens found by position are those of the scan (`tokens_eq_ok`).
-/

set_option autoImplicit false

namespace MessageFeed.Position

open Bytes
open Token (ofSegment? Scan IsPadding IsTrimmed)

/-! ## The last byte of a kind -/

/-- The last byte of a kind is found where it is. -/
theorem findLast?_eq_some (kind : UInt8 → Bool) (before : Bytes) (b : UInt8) (plain : Bytes)
    (hplain : ∀ c ∈ plain, kind c = false) (hb : kind b = true) :
    findLast? kind (before ++ b :: plain) = some before.length := by
  have hlength : (before ++ b :: plain).length = before.length + 1 + plain.length := by
    rw [List.length_append, List.length_cons]
    omega
  have hbehind : ((List.range plain.length).map (before.length + 1 + ·)).reverse.find?
      (fun i => (before ++ b :: plain)[i]?.any kind) = none := by
    rw [List.find?_eq_none]
    intro i hi
    rw [List.mem_reverse] at hi
    obtain ⟨j, hj, rfl⟩ := List.mem_map.mp hi
    have hj : j < plain.length := List.mem_range.mp hj
    have hget : (before ++ b :: plain)[before.length + 1 + j]? = some plain[j] := by
      rw [List.getElem?_append_right (by omega)]
      have hshift : before.length + 1 + j - before.length = j + 1 := by omega
      rw [hshift, List.getElem?_cons_succ, List.getElem?_eq_getElem hj]
    simp [hget, hplain plain[j] (List.getElem_mem hj)]
  unfold findLast?
  rw [hlength, List.range_add, List.reverse_append, List.find?_append, hbehind, Option.none_or,
    List.range_succ, List.reverse_append]
  simp [hb]

/-! ## Trimming -/

/-- In padding there is no byte that is not blank. -/
theorem find?_of_isPadding (pad : Bytes) (h : IsPadding pad) :
    find? (fun b => !isBlank b) pad 0 = none := by
  have hnone := find?_eq_none (fun b => !isBlank b) [] pad (by
    intro b hb
    rw [h b hb, Bool.not_true])
  rwa [List.nil_append, List.length_nil] at hnone

/-- The ends of a text that is not blank are found behind the blank bytes before it and in front of
those behind it. -/
theorem find?_of_isTrimmed (left body right : Bytes) (hleft : IsPadding left)
    (hbody : IsTrimmed body) (hright : IsPadding right) :
    find? (fun b => !isBlank b) (left ++ body ++ right) 0 = some left.length ∧
      findLast? (fun b => !isBlank b) (left ++ body ++ right) =
        some (left.length + (body.length - 1)) := by
  have hblank : ∀ pad, IsPadding pad → ∀ b ∈ pad, (!isBlank b) = false := by
    intro pad hpad b hb
    rw [hpad b hb, Bool.not_true]
  constructor
  · obtain ⟨b, more, rfl⟩ := List.exists_cons_of_ne_nil hbody.ne_nil
    have hb : isBlank b = false := hbody.head_not_blank b rfl
    have hfind := find?_eq_some (fun b => !isBlank b) [] left b (more ++ right)
      (hblank left hleft) (by rw [hb, Bool.not_false])
    simpa using hfind
  · obtain ⟨init, b, rfl⟩ := (List.eq_nil_or_concat' body).resolve_left hbody.ne_nil
    have hb : isBlank b = false := hbody.last_not_blank b (by simp)
    have hfind := findLast?_eq_some (fun b => !isBlank b) (left ++ init) b right
      (hblank right hright) (by rw [hb, Bool.not_false])
    simpa using hfind

/-- The token between two positions is the token of the segment between them. -/
theorem token?_eq_ok (before segment after : Bytes) :
    token? (before ++ segment ++ after) before.length (before.length + segment.length) =
      .ok (ofSegment? before.length segment) := by
  have hminus := minus_add_left before.length segment.length
  have hslice := slice_append before segment after
  unfold token?
  simp only [hminus, hslice, bind, Except.bind]
  rcases Token.isPadding_or_exists_isTrimmed segment with hpad |
    ⟨left, body, right, rfl, hleft, hbody, hright⟩
  · rw [find?_of_isPadding segment hpad, Token.ofSegment?_of_isPadding before.length segment hpad]
    rfl
  · obtain ⟨hfirst, hlast⟩ := find?_of_isTrimmed left body right hleft hbody hright
    have hpos := List.length_pos_iff.mpr hbody.ne_nil
    have hminus := minus_add_left left.length (body.length - 1)
    have hwidth : body.length - 1 + 1 = body.length := Nat.sub_add_cancel hpos
    have hslice := slice_append left body right
    have hempty : body.isEmpty = false := List.isEmpty_eq_false_iff.mpr hbody.ne_nil
    rw [Token.ofSegment?_of_isTrimmed before.length left body right hleft hbody hright]
    simp only [hfirst, hlast, present, hminus, hwidth, hslice, hempty]
    rfl

/-! ## The cursor -/

/-- Where a reading by position stands when a scan stands there. -/
def Cursor.ofScan (scan : Scan Int32) : Cursor :=
  ⟨scan.depth, scan.start, scan.tokens⟩

/-- The open segment begins within what has been read. -/
theorem Cursor.start_ofScan_le (front : Bytes) :
    (Cursor.ofScan (Scan.ofLine front)).start ≤ front.length := by
  have hstands : (Scan.ofLine front : Scan Int32).Stands front := Scan.stands_ofLine front
  rw [hstands.length]
  exact Nat.le_add_right _ _

/-- A cursor that stands where the scan stands takes a byte as the scan does. -/
theorem Cursor.step_ofScan (front : Bytes) (b : UInt8) (after : Bytes) :
    Cursor.step (front ++ b :: after) (Cursor.ofScan (Scan.ofLine front)) front.length =
      .ok (Cursor.ofScan (Scan.ofLine (front ++ [b]))) := by
  have hstands : (Scan.ofLine front : Scan Int32).Stands front := Scan.stands_ofLine front
  have hlength := hstands.length
  have hget : (front ++ b :: after)[front.length]? = some b := by simp
  rw [Scan.ofLine_concat]
  generalize (Scan.ofLine front : Scan Int32) = scan at hstands hlength ⊢
  unfold Cursor.step Cursor.ofScan Scan.step
  by_cases hcut : b = comma ∧ scan.depth = 0
  · obtain ⟨rfl, hdepth⟩ := hcut
    obtain ⟨done, hfront, hdone⟩ := hstands.segment
    have htoken := token?_eq_ok done scan.segment.reverse (comma :: after)
    rw [← hfront, hdone, List.length_reverse, ← hlength] at htoken
    simp only [hget, present, hdepth, and_self, if_true, bind, Except.bind, htoken]
    simp only [hlength, Scan.close]
    rfl
  · simp only [hget, present, hcut, if_false, bind, Except.bind]
    rfl

/-- After each byte of a line the cursor stands where the scan stands. -/
theorem foldlM_step_eq_ok (front after : Bytes) :
    (List.range front.length).foldlM (Cursor.step (front ++ after)) ⟨0, 0, []⟩ =
      .ok (Cursor.ofScan (Scan.ofLine front)) := by
  induction front using List.reverseRecOn generalizing after with
  | nil => rfl
  | append_singleton front b ih =>
    have hline : front ++ [b] ++ after = front ++ b :: after := by simp
    rw [List.length_append, List.length_singleton, List.range_succ, List.foldlM_append, hline,
      ih (b :: after)]
    simp only [List.foldlM_cons, List.foldlM_nil, bind_pure]
    exact Cursor.step_ofScan front b after

/-- Reading by position finds the tokens that the scan finds, and violates no bound. -/
theorem tokens_eq_ok (line : Bytes) : tokens line = .ok (Token.scan line) := by
  have hcursor := foldlM_step_eq_ok line []
  have hstands : (Scan.ofLine line : Scan Int32).Stands line := Scan.stands_ofLine line
  have hlength := hstands.length
  obtain ⟨done, hline, hdone⟩ := hstands.segment
  rw [List.append_nil] at hcursor
  unfold tokens Token.scan Token.scanIn
  simp only [hcursor, bind, Except.bind, Cursor.ofScan]
  by_cases hopen : (Scan.ofLine line : Scan Int32).start < line.length
  · have htoken := token?_eq_ok done (Scan.ofLine line : Scan Int32).segment.reverse []
    rw [List.append_nil, ← hline, hdone, List.length_reverse, ← hlength] at htoken
    simp only [hopen, if_true, htoken]
    rfl
  · -- The open segment is empty, and closing it finds nothing.
    have hempty : (Scan.ofLine line : Scan Int32).segment = [] := by
      apply List.eq_nil_of_length_eq_zero
      omega
    have hclose :
        (Scan.ofLine line : Scan Int32).close = (Scan.ofLine line : Scan Int32).tokens := by
      simp [Scan.close, hempty, Token.ofSegment?_of_isPadding _ [] Token.isPadding_nil]
    simp only [hopen, if_false, hclose]
    rfl

end MessageFeed.Position
