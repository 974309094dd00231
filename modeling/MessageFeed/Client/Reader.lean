import MessageFeed.Framing
import MessageFeed.Log
import MessageFeed.Message.Report

/-!
# Reading numbered lines

The client reads its input in blocks. Lines are numbered from one as they are completed, and each is
read as a message or skipped; a line that is skipped keeps its number. Bytes after the last newline
wait for the next block, and at the end of the input they are the last line, if there are any.
-/

set_option autoImplicit false

namespace MessageFeed.Client

open Bytes

/-- A numbered line and what it was read as. -/
structure Reading where
  number : Nat
  result : Except Message.LineError Message

namespace Reading

/-- Reads the line with a given number. -/
def ofLine (number : Nat) (line : Bytes) : Reading :=
  ⟨number, Message.ofLine line⟩

/-- The log entry about a line. -/
def entry (reading : Reading) : Log.Entry :=
  match reading.result with
  | .ok message =>
    Log.debug (ofString "line " ++ decimal reading.number ++ ofString ": " ++
      decimal message.params.length ++ ofString " params")
  | .error e =>
    Log.warn (ofString "Skipping line " ++ decimal reading.number ++ ofString ": " ++
      e.fault.describe)

/-- What is printed about a line: the report of its message, or nothing if it was skipped. -/
def output (reading : Reading) : Bytes :=
  match reading.result with
  | .ok message => message.report
  | .error _ => []

end Reading

/-- The bytes that wait for their newline, and the number of lines completed. -/
structure Reader where
  pending : Bytes
  count : Nat
  deriving DecidableEq, Repr

namespace Reader

/-- Before any input. -/
def fresh : Reader := ⟨[], 0⟩

/-- Takes a block of input, which completes some lines. -/
def feed (reader : Reader) (block : Bytes) : Reader × List Reading :=
  let frames := Frames.feed reader.pending block
  (⟨frames.rest, reader.count + frames.lines.length⟩,
    (frames.lines.zipIdx (reader.count + 1)).map fun (line, number) => .ofLine number line)

/-- Takes the end of the input, which completes the line that waits for its newline. -/
def finish (reader : Reader) : Reader × List Reading :=
  match reader.pending with
  | [] => (reader, [])
  | line => (⟨[], reader.count + 1⟩, [.ofLine (reader.count + 1) line])

end Reader

/-- The most bytes that are read at once. -/
def blockSize : Nat := 4096

/-- Cuts a text into blocks of `size` bytes; only the last one may be shorter. A size of zero counts
as one. -/
def blocks (size : Nat) : Bytes → List Bytes
  | [] => []
  | b :: rest => (b :: rest.take (size - 1)) :: blocks size (rest.drop (size - 1))
termination_by text => text.length
decreasing_by
  simp only [List.length_drop, List.length_cons]
  omega

/-- The blocks of a text make up the text. -/
theorem flatten_blocks (size : Nat) (text : Bytes) : (blocks size text).flatten = text := by
  fun_induction blocks size text with
  | case1 => rfl
  | case2 b rest ih => rw [List.flatten_cons, ih, List.cons_append, List.take_append_drop]

/-- No block is empty. -/
theorem ne_nil_of_mem_blocks (size : Nat) (text block : Bytes) (h : block ∈ blocks size text) :
    block ≠ [] := by
  fun_induction blocks size text with
  | case1 => cases h
  | case2 b rest ih =>
    rcases List.mem_cons.mp h with rfl | h
    · exact List.cons_ne_nil _ _
    · exact ih h

end MessageFeed.Client
