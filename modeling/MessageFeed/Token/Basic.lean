import MessageFeed.Bytes.Basic

/-!
# Tokens of a line

A line is a list of arguments with commas between them. A comma inside a brace group belongs to the
argument around it, so only a comma met at depth zero ends a segment. The depth only counts: it goes
below zero at a stray closing brace and comes back at an opening one. A segment without its blank
ends is a token, unless nothing is left of it.

The scan is written over any type of depth that can count up and down. Lines are read by
`Token.scan`, whose depth is a word of thirty-two bits and wraps around. `Token.scanUnbounded`
counts in the integers: it is what the depth is meant to be, and the measure of where a word falls
short.
-/

set_option autoImplicit false

namespace MessageFeed

open Bytes

/-- An argument of a line, with the offset in the line at which its text begins. -/
structure Token where
  offset : Nat
  text : Bytes
  deriving DecidableEq, Repr

namespace Token

/-- The token of a segment that begins at offset `start`, if the segment holds any byte that is
not blank. -/
def ofSegment? (start : Nat) (segment : Bytes) : Option Token :=
  match trimEnd (segment.dropWhile isBlank) with
  | [] => none
  | text => some ⟨start + (segment.takeWhile isBlank).length, text⟩

/-- The state of a scan after some bytes of a line: the depth reached, the offset at which the open
segment begins, the bytes of that segment, and the tokens of the closed segments. Bytes and tokens
are held latest first. -/
structure Scan (δ : Type) where
  depth : δ
  start : Nat
  segment : Bytes
  tokens : List Token
  deriving DecidableEq, Repr

namespace Scan

variable {δ : Type} [OfNat δ 0] [OfNat δ 1] [Add δ] [Sub δ] [DecidableEq δ]

/-- The scan of no bytes. -/
def fresh : Scan δ :=
  ⟨0, 0, [], []⟩

/-- The depth after one more byte. -/
def deepen (depth : δ) (b : UInt8) : δ :=
  if b = openBrace then depth + 1 else if b = closeBrace then depth - 1 else depth

/-- The tokens found if the open segment ends here, latest first. -/
def close (scan : Scan δ) : List Token :=
  (ofSegment? scan.start scan.segment.reverse).toList ++ scan.tokens

/-- Takes one more byte: a comma at depth zero ends the open segment, and any other byte joins
it. -/
def step (scan : Scan δ) (b : UInt8) : Scan δ :=
  if b = comma ∧ scan.depth = 0 then
    { scan with
      start := scan.start + scan.segment.length + 1
      segment := []
      tokens := scan.close }
  else
    { scan with
      depth := deepen scan.depth b
      segment := b :: scan.segment }

/-- The scan of a whole line. -/
def ofLine (line : Bytes) : Scan δ :=
  line.foldl step fresh

end Scan

/-- The tokens of a line, in order, as a scan finds them whose depth is of the type given. -/
def scanIn (δ : Type) [OfNat δ 0] [OfNat δ 1] [Add δ] [Sub δ] [DecidableEq δ] (line : Bytes) :
    List Token :=
  (Scan.ofLine line : Scan δ).close.reverse

/-- The tokens of a line, in order. The depth is a word of thirty-two bits and wraps around. -/
def scan (line : Bytes) : List Token :=
  scanIn Int32 line

/-- The tokens of a line, in order, as a scan finds them whose depth is an integer. -/
def scanUnbounded (line : Bytes) : List Token :=
  scanIn Int line

end Token

end MessageFeed
