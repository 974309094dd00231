import MessageFeed.Proofs.Token.Layout
import Mathlib.Data.List.Induction

/-!
# Where a scan stands

What a scan finds depends on how it counts, but where it stands does not: whatever the depth is, the
open segment is what it has read from its start on, and the tokens found so far end before that
(`stands_ofLine`). So it never looks beyond what it has read (`Stands.close_le`).
-/

set_option autoImplicit false

namespace MessageFeed.Token

open Bytes

/-- The token of a segment lies within it. -/
theorem within_of_ofSegment? (start : Nat) (segment : Bytes) (t : Token)
    (h : ofSegment? start segment = some t) :
    start ≤ t.offset ∧ t.offset + t.text.length ≤ start + segment.length := by
  rcases isPadding_or_exists_isTrimmed segment with hpad | ⟨left, body, right, rfl, hl, hbody, hr⟩
  · rw [ofSegment?_of_isPadding start segment hpad] at h
    cases h
  · rw [ofSegment?_of_isTrimmed start left body right hl hbody hr] at h
    cases h
    simp only [List.length_append]
    omega

namespace Scan

variable {δ : Type}

/-- A scan has read a line up to where it stands: its open segment is what the line has from its
start on, and the tokens it has found end before the comma in front of that. -/
structure Stands (scan : Scan δ) (line : Bytes) : Prop where
  segment : ∃ done, line = done ++ scan.segment.reverse ∧ done.length = scan.start
  found : ∀ t ∈ scan.tokens, t.offset + t.text.length < scan.start

/-- The line so far is what is closed and what is open. -/
theorem Stands.length {scan : Scan δ} {line : Bytes} (h : scan.Stands line) :
    line.length = scan.start + scan.segment.length := by
  obtain ⟨done, hline, hdone⟩ := h.segment
  rw [hline, List.length_append, List.length_reverse, hdone]

/-- Closing the open segment where the scan stands finds no token beyond that. -/
theorem Stands.close_le {scan : Scan δ} {line : Bytes} (h : scan.Stands line) (t : Token)
    (ht : t ∈ scan.close) : t.offset + t.text.length ≤ line.length := by
  rw [h.length]
  rcases List.mem_append.mp ht with hlast | hfound
  · have hwithin := within_of_ofSegment? _ _ t (Option.mem_toList.mp hlast)
    rw [List.length_reverse] at hwithin
    exact hwithin.2
  · have hbefore := h.found t hfound
    omega

variable [OfNat δ 0] [OfNat δ 1] [Add δ] [Sub δ] [DecidableEq δ]

/-- A scan that takes one more byte stands behind it. -/
theorem Stands.step {scan : Scan δ} {line : Bytes} (h : scan.Stands line) (b : UInt8) :
    (scan.step b).Stands (line ++ [b]) := by
  have hlength := h.length
  unfold Scan.step
  split
  · refine ⟨⟨line ++ [b], by simp, ?_⟩, ?_⟩
    · rw [List.length_append, List.length_singleton, hlength]
    · intro t ht
      have hle := h.close_le t ht
      simp only
      omega
  · obtain ⟨done, hline, hdone⟩ := h.segment
    refine ⟨⟨done, ?_, hdone⟩, h.found⟩
    rw [hline]
    simp

/-- The last byte of a line is the last one that the scan of it takes. -/
theorem ofLine_concat (line : Bytes) (b : UInt8) :
    (ofLine (line ++ [b]) : Scan δ) = (ofLine line).step b :=
  List.foldl_concat _ _ _ _

/-- The scan of a line stands at its end. -/
theorem stands_ofLine (line : Bytes) : (ofLine line : Scan δ).Stands line := by
  induction line using List.reverseRecOn with
  | nil => exact ⟨⟨[], rfl, rfl⟩, by simp [ofLine, fresh]⟩
  | append_singleton line b ih =>
    rw [ofLine_concat]
    exact ih.step b

end Scan

end MessageFeed.Token
