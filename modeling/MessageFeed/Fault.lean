import MessageFeed.Bytes.Basic

/-!
# Faults

A fault is a report of misuse: a kind, and a message that whoever found the misuse wrote. Two kinds
have names. A kind can also come from elsewhere as a bare number, and one that belongs to no named
kind is called unknown.

A message is shown up to its first zero byte, at which text ends for whoever reads it.
-/

set_option autoImplicit false

namespace MessageFeed

namespace Fault

/-- What is wrong about a request: an argument, the moment, or something known by number only. -/
inductive Kind where
  | illegalArgument
  | illegalState
  | other (code : Int)
  deriving DecidableEq, Repr

namespace Kind

/-- The kind with a given number. -/
def ofCode : Int → Kind
  | 0 => illegalArgument
  | 1 => illegalState
  | code => other code

/-- The number of a kind. -/
def code : Kind → Int
  | illegalArgument => 0
  | illegalState => 1
  | other code => code

/-- The name of a kind. -/
def name : Kind → Bytes
  | illegalArgument => .ofString "IllegalArgument"
  | illegalState => .ofString "IllegalState"
  | other _ => .ofString "Unknown"

/-- Kinds keep the numbers they come with. -/
theorem code_ofCode (n : Int) : (ofCode n).code = n := by
  unfold ofCode
  split <;> rfl

end Kind

end Fault

/-- A report of misuse. -/
structure Fault where
  kind : Fault.Kind
  message : Bytes
  deriving DecidableEq, Repr

namespace Fault

/-- The fault of an argument that is not acceptable. -/
def illegalArgument (message : Bytes) : Fault :=
  ⟨.illegalArgument, message⟩

/-- The fault of a request that comes at the wrong moment. -/
def illegalState (message : Bytes) : Fault :=
  ⟨.illegalState, message⟩

/-- The message as it is shown: up to its first zero byte. -/
def shown (fault : Fault) : Bytes :=
  fault.message.takeWhile (· != 0)

/-- The fault in one line: the name of its kind, a colon, and the message. -/
def describe (fault : Fault) : Bytes :=
  fault.kind.name ++ .ofString ": " ++ fault.shown

end Fault

end MessageFeed
