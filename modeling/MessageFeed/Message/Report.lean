import MessageFeed.Message.Basic

/-!
# What is printed about a message

A message is reported on two lines. The first has its normal text, the second its kind, its command
and, if there are any, its parameters. Nothing is escaped: normal text has no line breaks, so a
report always has two lines.
-/

set_option autoImplicit false

namespace MessageFeed.Message

open Bytes

/-- Parameters as they are printed: each in square brackets, behind a label. No parameters print
nothing. -/
def reportParams : List Bytes → Bytes
  | [] => []
  | params =>
    ofString " params=" ++ params.flatMap fun param => ofString "[" ++ param ++ ofString "]"

/-- The two lines printed about a message. -/
def report (message : Message) : Bytes :=
  ofString "cleaned: " ++ message.cleaned ++ [newline] ++
    (ofString "        kind=" ++ message.kind.name ++ ofString " cmd=" ++ message.command ++
      reportParams message.params ++ [newline])

end MessageFeed.Message
