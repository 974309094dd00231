import MessageFeed.Bytes.Nesting
import MessageFeed.Token.Basic

/-!
# Depths that count

A scan asks of its depth only whether it is zero. So all that matters about a type of depths is
behind which texts the depth is zero again if it was zero before them: `CountsModulo` says that
these are the texts that close what they open, counted modulo a period. The integers count modulo
zero, that is exactly (`countsModulo_int`), and words of thirty-two bits count modulo 2³²
(`countsModulo_word`), since a word is the net of what has been read, cut down
(`foldl_deepen_word`). Neither depends on what the scan has cut at so far (`depth_ofLine`).
-/

set_option autoImplicit false

namespace MessageFeed.Token.Scan

open Bytes

/-! ## The depth of a scan -/

section Depth

variable {δ : Type} [OfNat δ 0] [OfNat δ 1] [Add δ] [Sub δ]

/-- Whether depths of a type count modulo a period: behind a text that begins at depth zero, the
depth is zero again if and only if the text closes what it opens, counted so. -/
def CountsModulo (δ : Type) [OfNat δ 0] [OfNat δ 1] [Add δ] [Sub δ] (period : Nat) : Prop :=
  ∀ text : Bytes, text.foldl deepen (0 : δ) = 0 ↔ Closes period text

variable [DecidableEq δ]

/-- A comma leaves the depth as it is, so every byte deepens it, whether the scan cuts there or
not. -/
theorem depth_step (scan : Scan δ) (b : UInt8) : (scan.step b).depth = deepen scan.depth b := by
  unfold step
  split
  · rename_i hcut
    rw [hcut.1]
    rfl
  · rfl

/-- The depth behind a text is that of its bytes alone, whatever was cut at. -/
theorem depth_foldl_step (text : Bytes) (scan : Scan δ) :
    (text.foldl step scan).depth = text.foldl deepen scan.depth := by
  induction text generalizing scan with
  | nil => rfl
  | cons b text ih => rw [List.foldl_cons, ih, depth_step, List.foldl_cons]

/-- The depth of the scan of a line. -/
theorem depth_ofLine (line : Bytes) :
    (ofLine line : Scan δ).depth = line.foldl deepen (0 : δ) :=
  depth_foldl_step line fresh

end Depth

/-! ## Integers -/

/-- One byte deepens an integer by its net. -/
theorem deepen_eq (depth : Int) (b : UInt8) : deepen depth b = depth + net [b] := by
  unfold deepen
  split
  · rename_i hopen
    rw [hopen]
    rfl
  · split
    · rename_i hclose
      rw [hclose]
      rfl
    · rename_i hopen hclose
      simp [net, hopen, hclose]

/-- A text deepens an integer by its net. -/
theorem foldl_deepen_int (depth : Int) (text : Bytes) :
    text.foldl deepen depth = depth + net text := by
  induction text generalizing depth with
  | nil => exact (Int.add_zero depth).symm
  | cons b text ih => rw [List.foldl_cons, ih, deepen_eq, net_cons b text, Int.add_assoc]

/-- Integers count exactly. -/
theorem countsModulo_int : CountsModulo Int 0 := by
  intro text
  rw [foldl_deepen_int, Int.zero_add, closes_zero_iff]

/-! ## Words -/

/-- Deepening commutes with cutting an integer down to a word. -/
theorem deepen_ofInt (depth : Int) (b : UInt8) :
    deepen (Int32.ofInt depth) b = Int32.ofInt (deepen depth b) := by
  unfold deepen
  split
  · rw [Int32.ofInt_add]
    rfl
  · split
    · rw [Int32.ofInt_sub]
      rfl
    · rfl

/-- The word behind a text is the net of the text, cut down. -/
theorem foldl_deepen_word (depth : Int) (text : Bytes) :
    text.foldl deepen (Int32.ofInt depth) = Int32.ofInt (depth + net text) := by
  rw [← foldl_deepen_int]
  induction text generalizing depth with
  | nil => rfl
  | cons b text ih => rw [List.foldl_cons, deepen_ofInt, ih, List.foldl_cons]

/-- An integer is cut down to zero if and only if it is a multiple of 2³². -/
theorem ofInt_eq_zero_iff (n : Int) : Int32.ofInt n = 0 ↔ (Int32.size : Int) ∣ n := by
  rw [Int32.ofInt_eq_iff_bmod_eq_toInt, Int32.toInt_zero]
  exact Int.dvd_iff_bmod_eq_zero.symm

/-- Words count modulo 2³². -/
theorem countsModulo_word : CountsModulo Int32 Int32.size := by
  intro text
  have hword := foldl_deepen_word 0 text
  have hzero : Int32.ofInt 0 = 0 := rfl
  rw [hzero, Int.zero_add] at hword
  rw [hword]
  exact ofInt_eq_zero_iff (net text)

end MessageFeed.Token.Scan
