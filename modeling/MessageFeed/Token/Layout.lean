import MessageFeed.Bytes.Nesting
import MessageFeed.Token.Basic

/-!
# How tokens are laid out

The grammar of a line. A list of texts can be told apart in a line if each of them `IsToken` and all
but the last close what they open; the last may leave braces open, since nothing has to be told
apart after it. In a line such texts are joined with commas. Blank bytes may stand around each of
them, and there may be segments of blank bytes only.

All of this is meant for exact counting, which is period zero. It is written for any period, as a
depth that wraps around has a grammar of its own, and the two agree on a line if `TellsTop` holds of
it: at no comma does the depth seem to be zero without being so.
-/

set_option autoImplicit false

namespace MessageFeed.Token

open Bytes

/-- Blank bytes only, or nothing. -/
def IsPadding (text : Bytes) : Prop :=
  ∀ b ∈ text, isBlank b = true

/-- A text that has no blank end, and is not empty. -/
structure IsTrimmed (text : Bytes) : Prop where
  ne_nil : text ≠ []
  head_not_blank : ∀ b, text.head? = some b → isBlank b = false
  last_not_blank : ∀ b, text.getLast? = some b → isBlank b = false

/-- A text that can stand as a token: it is trimmed, and no comma in it is on the top level. -/
structure IsToken (period : Nat) (text : Bytes) : Prop extends IsTrimmed text where
  no_top_comma : ∀ before after, text = before ++ comma :: after → ¬ Closes period before

/-- Texts that can be told apart when they are joined with commas. -/
def AreTokens (period : Nat) (texts : List Bytes) : Prop :=
  (∀ text ∈ texts, IsToken period text) ∧ ∀ text ∈ texts.dropLast, Closes period text

/-- A text, from offset `start` of a line to its end, in which tokens are laid out. -/
inductive LaidOut (period : Nat) : (start : Nat) → List Token → Bytes → Prop where
  /-- A last segment that is blank. -/
  | padding {start : Nat} {pad : Bytes} (blank : IsPadding pad) : LaidOut period start [] pad
  /-- A last segment that has a token. -/
  | last {start : Nat} {left text right : Bytes} (blank_left : IsPadding left)
      (token : IsToken period text) (blank_right : IsPadding right) :
      LaidOut period start [⟨start + left.length, text⟩] (left ++ text ++ right)
  /-- A segment that is blank, with more behind it. -/
  | skip {start : Nat} {tokens : List Token} {pad rest : Bytes} (blank : IsPadding pad)
      (more : LaidOut period (start + pad.length + 1) tokens rest) :
      LaidOut period start tokens (pad ++ comma :: rest)
  /-- A segment that has a token, with more behind it. -/
  | next {start : Nat} {tokens : List Token} {left text right rest : Bytes}
      (blank_left : IsPadding left) (token : IsToken period text) (closed : Closes period text)
      (blank_right : IsPadding right)
      (more : LaidOut period (start + left.length + text.length + right.length + 1) tokens rest) :
      LaidOut period start (⟨start + left.length, text⟩ :: tokens)
        (left ++ text ++ right ++ comma :: rest)

/-- A depth of thirty-two bits tells the top-level commas of a line: where it is zero at a comma,
the net of what is before the comma is zero itself, and not another multiple of 2³². -/
def TellsTop (line : Bytes) : Prop :=
  ∀ before after, line = before ++ comma :: after → Closes Int32.size before → net before = 0

/-- Texts joined with commas and nothing else. -/
def join (texts : List Bytes) : Bytes :=
  [comma].intercalate texts

end MessageFeed.Token
