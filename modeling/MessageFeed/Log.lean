import MessageFeed.Bytes.Basic

/-!
# Log entries

What the program reports about itself, apart from its output: a text and how much it matters.
-/

set_option autoImplicit false

namespace MessageFeed.Log

/-- How much an entry matters, from the least to the most. -/
inductive Level where
  | debug
  | info
  | warn
  | error
  deriving DecidableEq, Repr

/-- The name of a level. -/
def Level.name : Level → String
  | debug => "debug"
  | info => "info"
  | warn => "warn"
  | error => "error"

/-- One entry of a log. -/
structure Entry where
  level : Level
  text : Bytes
  deriving DecidableEq, Repr

/-- An entry for whoever looks for the cause of a problem. -/
def debug (text : Bytes) : Entry := ⟨.debug, text⟩

/-- An entry about the normal course. -/
def info (text : Bytes) : Entry := ⟨.info, text⟩

/-- An entry about something left out or undone. -/
def warn (text : Bytes) : Entry := ⟨.warn, text⟩

/-- An entry about a failure. -/
def error (text : Bytes) : Entry := ⟨.error, text⟩

end MessageFeed.Log
