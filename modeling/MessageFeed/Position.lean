import MessageFeed.Framing
import MessageFeed.Message.Basic

/-!
# Reading by position

The rules of the feed once more, for a reader that keeps one text in place and works with positions
in it. Such a reader can go wrong where one that takes lists apart cannot: it can slice past the
end, subtract a later position from an earlier one, ask an empty text for a byte, or go round
without getting on. Here each of these is checked and ends the reading with a `Violation`. A loop
has as many rounds as its text has bytes, and needing one more is a violation too.
-/

set_option autoImplicit false

namespace MessageFeed.Position

open Bytes

/-- What a reader by position can do wrong. -/
inductive Violation where
  /-- It slices from a position past the end. -/
  | pastEnd (position size : Nat)
  /-- It subtracts a larger position from a smaller one. -/
  | negative (minuend subtrahend : Nat)
  /-- It asks for an element that is not there. -/
  | missing
  /-- It goes on for more rounds than its text has bytes. -/
  | endless
  deriving DecidableEq, Repr

/-- A value, unless a violation came before it. -/
abbrev Checked (α : Type) := Except Violation α

/-- The difference of two positions. -/
def minus (minuend subtrahend : Nat) : Checked Nat :=
  if subtrahend ≤ minuend then .ok (minuend - subtrahend)
  else .error (.negative minuend subtrahend)

/-- At most `count` bytes of a text from position `start` on. -/
def slice (text : Bytes) (start count : Nat) : Checked Bytes :=
  if start ≤ text.length then .ok ((text.drop start).take count)
  else .error (.pastEnd start text.length)

/-- An element that has to be there. -/
def present {α : Type} : Option α → Checked α
  | some a => .ok a
  | none => .error .missing

/-- The first position from `start` on at which a text has a byte of a kind. -/
def find? (kind : UInt8 → Bool) (text : Bytes) (start : Nat) : Option Nat :=
  (List.range text.length).find? fun i => start ≤ i && text[i]?.any kind

/-- The last position at which a text has a byte of a kind. -/
def findLast? (kind : UInt8 → Bool) (text : Bytes) : Option Nat :=
  (List.range text.length).reverse.find? fun i => text[i]?.any kind

/-! ## Normal text -/

/-- Takes the runs of a text from position `start` on, in at most `rounds` rounds. -/
def takeRuns (text : Bytes) (start : Nat) (pass : Message.Pass) :
    (rounds : Nat) → Checked Message.Pass
  | 0 => if start < text.length then .error .endless else .ok pass
  | rounds + 1 =>
    if start < text.length then do
      let stop := match find? isBrace text start with
        | none => text.length
        | some brace => brace + 1
      let run ← slice text start (← minus stop start)
      let front ← present run.head?
      let back ← present run.getLast?
      takeRuns text stop (pass.takeAs run (front == openBrace && back == closeBrace)) rounds
    else .ok pass

/-- The normal text of a message. -/
def normalize (text : Bytes) : Checked Bytes :=
  return (← takeRuns text 0 .fresh text.length).text

/-! ## Tokens -/

/-- The token between two positions of a line. -/
def token? (line : Bytes) (start stop : Nat) : Checked (Option Token) := do
  let segment ← slice line start (← minus stop start)
  match find? (fun b => !isBlank b) segment 0 with
  | none => return none
  | some first =>
    let last ← present (findLast? (fun b => !isBlank b) segment)
    let text ← slice segment first ((← minus last first) + 1)
    return if text.isEmpty then none else some ⟨start + first, text⟩

/-- The state of a reading of tokens: the depth, the position at which the open segment begins, and
the tokens found, latest first. -/
structure Cursor where
  depth : Int32
  start : Nat
  tokens : List Token
  deriving DecidableEq, Repr

/-- Takes the byte at position `i`. -/
def Cursor.step (text : Bytes) (cursor : Cursor) (i : Nat) : Checked Cursor := do
  let b ← present text[i]?
  if b = comma ∧ cursor.depth = 0 then
    let token ← token? text cursor.start i
    return { cursor with start := i + 1, tokens := token.toList ++ cursor.tokens }
  else
    return { cursor with depth := Token.Scan.deepen cursor.depth b }

/-- The tokens of a line, in order. A last segment that is empty is not looked at. -/
def tokens (line : Bytes) : Checked (List Token) := do
  let cursor ← (List.range line.length).foldlM (Cursor.step line) ⟨0, 0, []⟩
  if cursor.start < line.length then
    let token ← token? line cursor.start line.length
    return (token.toList ++ cursor.tokens).reverse
  else
    return cursor.tokens.reverse

/-- Reads a line. -/
def ofLine (line : Bytes) : Checked (Except Message.LineError Message) := do
  let cleaned ← normalize line
  let arguments := (← tokens cleaned).map Token.text
  if arguments.isEmpty then
    return .error .noCommand
  else
    let command ← present arguments.head?
    let params := (arguments.drop 1).take (← minus arguments.length 1)
    return .ok { kind := .ofCommand command, command, params, cleaned, raw := line }

/-! ## Lines -/

/-- Takes the complete lines out of a buffer from position `start` on, in at most `rounds` rounds:
the position after the last of them, and all lines, latest first. -/
def takeLines (buffer : Bytes) (start : Nat) (lines : List Bytes) :
    (rounds : Nat) → Checked (Nat × List Bytes)
  | 0 => if (find? (· == newline) buffer start).isSome then .error .endless else .ok (start, lines)
  | rounds + 1 =>
    match find? (· == newline) buffer start with
    | none => .ok (start, lines)
    | some stop => do
      let line ← slice buffer start (← minus stop start)
      takeLines buffer (stop + 1) (line :: lines) rounds

/-- Takes the complete lines out of a buffer. -/
def cut (buffer : Bytes) : Checked Frames := do
  let (start, lines) ← takeLines buffer 0 [] buffer.length
  let rest ← slice buffer start (← minus buffer.length start)
  return ⟨lines.reverse, rest⟩

end MessageFeed.Position
