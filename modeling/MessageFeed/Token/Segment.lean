import MessageFeed.Token.Layout

/-!
# Writing a line

A line can be written from texts, one segment after another. A segment is blank, or it sets a text
between padding. `written` puts commas between the segments, and `placed` says at which offset each
text then begins. `Renders` says which segments write given texts: they hold these texts in this
order, all else in them is padding, and no segment follows a last text that leaves braces open,
since that text would take it in.
-/

set_option autoImplicit false

namespace MessageFeed.Token

open Bytes

instance (text : Bytes) : Decidable (IsPadding text) :=
  decidable_of_iff (text.all isBlank = true) List.all_eq_true

/-- A segment of a line that is to be written: padding only, or a text with padding on both
sides. -/
inductive Segment where
  | blank (pad : Bytes)
  | around (left text right : Bytes)
  deriving DecidableEq, Repr

namespace Segment

/-- The bytes of a segment. -/
def bytes : Segment → Bytes
  | blank pad => pad
  | around left text right => left ++ text ++ right

/-- The text that is set in a segment. -/
def text? : Segment → Option Bytes
  | blank _ => none
  | around _ text _ => some text

/-- The text that is set in a segment that begins at offset `start`, at its own offset. -/
def token? (start : Nat) : Segment → Option Token
  | blank _ => none
  | around left text _ => some ⟨start + left.length, text⟩

/-- All bytes of a segment but those of its text are blank. -/
def IsPadded : Segment → Prop
  | blank pad => IsPadding pad
  | around left _ right => IsPadding left ∧ IsPadding right

instance (segment : Segment) : Decidable segment.IsPadded :=
  match segment with
  | blank pad => inferInstanceAs (Decidable (IsPadding pad))
  | around left _ right => inferInstanceAs (Decidable (IsPadding left ∧ IsPadding right))

end Segment

/-- The line that some segments make up, with a comma between any two of them. -/
def written (segments : List Segment) : Bytes :=
  join (segments.map Segment.bytes)

/-- The texts that are set in some segments, with the offsets at which they begin if the first of
the segments begins at offset `start`. -/
def placed (start : Nat) : List Segment → List Token
  | [] => []
  | segment :: more =>
    (segment.token? start).toList ++ placed (start + segment.bytes.length + 1) more

/-- Segments that write the texts given. -/
structure Renders (period : Nat) (texts : List Bytes) (segments : List Segment) : Prop where
  texts_eq : segments.filterMap Segment.text? = texts
  padded : ∀ segment ∈ segments, segment.IsPadded
  closed : ∀ pad, segments.getLast? = some (.blank pad) →
    ∀ text, texts.getLast? = some text → Closes period text

end MessageFeed.Token
