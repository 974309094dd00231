import MessageFeed.Bytes.Basic

/-!
# Normal text of a message

A message is read in its normal text, in which letters are small and lines are joined.
`normalize` works run by run. A run ends right after a brace or at the end of the text. A run that
is enclosed in braces is kept as it stands, and so is the run after it; from every other run line
breaks are dropped and its letters are lowered.
-/

set_option autoImplicit false

namespace MessageFeed.Message

open Bytes

/-- The runs of a text: each but the last ends with a brace, and no run has a brace before its
end. -/
def runs (text : Bytes) : List Bytes :=
  text.splitBy fun b _ => !isBrace b

/-- A run that begins with an opening brace and ends with a closing one. -/
def isEnclosed (run : Bytes) : Bool :=
  run.head? == some openBrace && run.getLast? == some closeBrace

/-- A text without its line breaks and with small letters for capitals. -/
def fold (text : Bytes) : Bytes :=
  (text.filter fun b => !isLineBreak b).map lower

/-- The state of a pass over the runs of a text: whether the next run is to be kept as it stands,
and the normal texts of the runs so far, the latest first. -/
structure Pass where
  verbatim : Bool
  done : List Bytes
  deriving DecidableEq, Repr

namespace Pass

/-- Before the first run nothing is kept as it stands. -/
def fresh : Pass := ⟨false, []⟩

/-- Takes the next run, given whether it is enclosed. -/
def takeAs (pass : Pass) (run : Bytes) (enclosed : Bool) : Pass :=
  if enclosed then ⟨true, run :: pass.done⟩
  else if pass.verbatim then ⟨false, run :: pass.done⟩
  else ⟨false, fold run :: pass.done⟩

/-- Takes the next run. -/
def take (pass : Pass) (run : Bytes) : Pass :=
  pass.takeAs run (isEnclosed run)

/-- The normal text of the runs so far. -/
def text (pass : Pass) : Bytes :=
  pass.done.reverse.flatten

end Pass

/-- The normal text of a message. -/
def normalize (text : Bytes) : Bytes :=
  ((runs text).foldl Pass.take Pass.fresh).text

end MessageFeed.Message
