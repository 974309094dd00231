import MessageFeed.Fault
import MessageFeed.Message.Kind
import MessageFeed.Message.Normal
import MessageFeed.Token.Basic

/-!
# Messages

A line of the feed is a message if its normal text has any token. The first token is the command,
which decides the kind of the message, and the others are its parameters.
-/

set_option autoImplicit false

namespace MessageFeed

/-- A line of the feed that has been read. -/
structure Message where
  /-- What the command announces. -/
  kind : Message.Kind
  /-- The first argument. -/
  command : Bytes
  /-- The arguments after the first. -/
  params : List Bytes
  /-- The normal text of the line. -/
  cleaned : Bytes
  /-- The line as it came. -/
  raw : Bytes
  deriving DecidableEq, Repr

namespace Message

/-- Why a line is not a message. -/
inductive LineError where
  /-- The line has no token. -/
  | noCommand
  deriving DecidableEq, Repr

/-- The fault that a refused line is reported as. -/
def LineError.fault : LineError → Fault
  | noCommand => .illegalArgument (.ofString "Parser: line has no command token")

/-- The arguments of a line: the texts of the tokens of its normal text. -/
def arguments (line : Bytes) : List Bytes :=
  (Token.scan (normalize line)).map Token.text

/-- Reads a line. -/
def ofLine (line : Bytes) : Except LineError Message :=
  match arguments line with
  | [] => .error .noCommand
  | command :: params =>
    .ok { kind := .ofCommand command, command, params, cleaned := normalize line, raw := line }

end Message

end MessageFeed
