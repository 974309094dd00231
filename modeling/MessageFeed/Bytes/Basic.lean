/-!
# Bytes of a feed

Text travels as a list of bytes, and every rule of the feed is a rule about single bytes: which
bytes are blank, which end a line, which open or close a brace group, and how a letter is lowered.
No encoding is assumed. Letters are the fifty-two letters of ASCII, so a byte from 128 up is
content like any other.
-/

set_option autoImplicit false

namespace MessageFeed

/-- Text as it travels: its bytes, in order. -/
abbrev Bytes := List UInt8

namespace Bytes

/-- The bytes of a text whose characters all have codes below 256: one byte for each character. -/
def ofString (text : String) : Bytes :=
  text.toList.map fun c => UInt8.ofNat c.toNat

/-- The decimal digits of a number, without sign or leading zeros. -/
def decimal (n : Nat) : Bytes :=
  (Nat.toDigits 10 n).map fun c => UInt8.ofNat c.toNat

/-- The decimal digits of an integer, after a minus sign if it is negative. -/
def signedDecimal : Int → Bytes
  | .ofNat n => decimal n
  | .negSucc n => ofString "-" ++ decimal (n + 1)

/-- The byte that ends a line. -/
abbrev newline : UInt8 := 10

/-- The byte that some senders put before a newline. -/
abbrev carriageReturn : UInt8 := 13

/-- The byte between two arguments. -/
abbrev comma : UInt8 := 44

/-- The byte that opens a brace group. -/
abbrev openBrace : UInt8 := 123

/-- The byte that closes a brace group. -/
abbrev closeBrace : UInt8 := 125

/-- A byte that opens or closes a brace group. -/
def isBrace (b : UInt8) : Bool :=
  b == openBrace || b == closeBrace

/-- A byte that breaks a line: a newline or a carriage return. -/
def isLineBreak (b : UInt8) : Bool :=
  b == newline || b == carriageReturn

/-- A blank byte: a space, or one of the five from tab to carriage return. -/
def isBlank (b : UInt8) : Bool :=
  b == 32 || (9 ≤ b && b ≤ 13)

/-- A byte below 128. -/
def isAscii (b : UInt8) : Bool :=
  b < 128

/-- The small letter of a capital letter; any other byte is itself. -/
def lower (b : UInt8) : UInt8 :=
  if 65 ≤ b ∧ b ≤ 90 then b + 32 else b

/-- The capital letter of a small letter; any other byte is itself. -/
def upper (b : UInt8) : UInt8 :=
  if 97 ≤ b ∧ b ≤ 122 then b - 32 else b

/-- A text without the blank bytes at its end. -/
def trimEnd (text : Bytes) : Bytes :=
  (text.reverse.dropWhile isBlank).reverse

/-- A byte that has been lowered stays as it is. -/
theorem lower_lower (b : UInt8) : lower (lower b) = lower b := by
  unfold lower
  by_cases h : 65 ≤ b ∧ b ≤ 90
  · have h1 : 65 ≤ b.toNat := UInt8.le_iff_toNat_le.mp h.1
    have h2 : b.toNat ≤ 90 := UInt8.le_iff_toNat_le.mp h.2
    have h3 : ¬ (65 ≤ b + 32 ∧ b + 32 ≤ 90) := by
      rw [UInt8.le_iff_toNat_le, UInt8.le_iff_toNat_le, UInt8.toNat_add]
      have : (32 : UInt8).toNat = 32 := rfl
      have : (65 : UInt8).toNat = 65 := rfl
      have : (90 : UInt8).toNat = 90 := rfl
      omega
    simp only [if_pos h, if_neg h3]
  · simp only [if_neg h]

end Bytes

end MessageFeed
