import MessageFeed.Bytes.Basic

/-!
# Disguised lines

What a sender may do to a line without changing what it says: write letters in the other case, and
break the line anywhere.
-/

set_option autoImplicit false

namespace MessageFeed.Message

open Bytes

/-- `Disguised plain line` says that `line` is `plain` with letters in another case and with line
breaks put in anywhere. -/
inductive Disguised : (plain line : Bytes) → Prop where
  | nil : Disguised [] []
  /-- A byte that is the same but for its case. -/
  | keep {b c : UInt8} {plain line : Bytes} (same : lower c = lower b)
      (more : Disguised plain line) : Disguised (b :: plain) (c :: line)
  /-- A line break put in. -/
  | breakLine {b : UInt8} {plain line : Bytes} (isBreak : isLineBreak b = true)
      (more : Disguised plain line) : Disguised plain (b :: line)

/-- A line is a disguise of itself. -/
theorem Disguised.refl (line : Bytes) : Disguised line line := by
  induction line with
  | nil => exact .nil
  | cons b line ih => exact .keep rfl ih

end MessageFeed.Message
