import MessageFeed.Bytes.Nesting
import MessageFeed.Token.Basic

/-!
# Tokens by cutting

The tokens of a line, found without a scan. A comma is on the top level if the bytes before it open
as many brace groups as they close. Cutting the line at all of its top-level commas gives the
pieces, and the pieces that are not blank give the tokens. Groups are counted modulo a period, which
is zero where they are counted exactly.
-/

set_option autoImplicit false

namespace MessageFeed.Token

open Bytes

/-- Whether position `i` of a line holds a comma on the top level. -/
def IsTopComma (period : Nat) (text : Bytes) (i : Nat) : Prop :=
  text[i]? = some comma ∧ Closes period (text.take i)

instance (period : Nat) (text : Bytes) (i : Nat) : Decidable (IsTopComma period text i) :=
  inferInstanceAs (Decidable (_ ∧ _))

/-- The positions of the top-level commas of a line, in order. -/
def topCommas (period : Nat) (text : Bytes) : List Nat :=
  (List.range text.length).filter fun i => IsTopComma period text i

/-- The pieces of a line between its top-level commas, each with the offset at which it begins. -/
def pieces (period : Nat) (text : Bytes) : List (Nat × Bytes) :=
  let commas := topCommas period text
  let starts := 0 :: commas.map (· + 1)
  let stops := commas ++ [text.length]
  (starts.zip stops).map fun (start, stop) => (start, (text.drop start).take (stop - start))

/-- The tokens of the pieces of a line. -/
def ofPieces (period : Nat) (text : Bytes) : List Token :=
  (pieces period text).filterMap fun (start, piece) => ofSegment? start piece

end MessageFeed.Token
