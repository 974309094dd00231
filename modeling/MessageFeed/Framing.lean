import MessageFeed.Bytes.Basic

/-!
# Lines out of a stream

A stream of lines arrives in chunks that begin and end anywhere. What has arrived and not yet been
handed on waits in a buffer. `cut` takes every complete line out of a buffer: its bytes up to, and
without, a newline. The bytes after the last newline stay. `feed` adds a chunk to the buffer first.
`assemble` is the other direction: it writes lines and a rest as a stream.
-/

set_option autoImplicit false

namespace MessageFeed

open Bytes

/-- The complete lines taken out of a buffer, and the bytes that stay in it. -/
structure Frames where
  lines : List Bytes
  rest : Bytes
  deriving DecidableEq, Repr

namespace Frames

/-- Takes the complete lines out of a buffer. -/
def cut (buffer : Bytes) : Frames :=
  let segments := buffer.splitOn newline
  ⟨segments.dropLast, segments.getLast?.getD []⟩

/-- Adds a chunk to a buffer and takes the complete lines out. -/
def feed (buffer chunk : Bytes) : Frames :=
  cut (buffer ++ chunk)

/-- Feeds chunks one after another, the first one to the buffer given; what each of them brings. -/
def feedAll (buffer : Bytes) : List Bytes → List Frames
  | [] => []
  | chunk :: chunks =>
    let frames := feed buffer chunk
    frames :: feedAll frames.rest chunks

/-- The stream that consists of some lines, each ended by a newline, and a rest. -/
def assemble (frames : Frames) : Bytes :=
  (frames.lines.flatMap fun line => line ++ [newline]) ++ frames.rest

/-- Lines written with their newlines, and a rest, are the lines and the rest with newlines between
them. -/
theorem assemble_eq_intercalate (lines : List Bytes) (rest : Bytes) :
    assemble ⟨lines, rest⟩ = [newline].intercalate (lines ++ [rest]) := by
  unfold assemble
  induction lines with
  | nil => simp [List.intercalate]
  | cons line lines ih =>
    simp only [List.flatMap_cons, List.append_assoc] at ih ⊢
    rw [ih]
    cases lines <;> simp [List.intercalate]

/-- Cutting a buffer loses nothing: its lines and its rest, written again, are the buffer. -/
theorem assemble_cut (buffer : Bytes) : assemble (cut buffer) = buffer := by
  have hne : buffer.splitOn newline ≠ [] := List.splitOn_ne_nil newline buffer
  unfold cut
  rw [assemble_eq_intercalate, List.getLast?_eq_some_getLast hne, Option.getD_some,
    List.dropLast_concat_getLast, List.intercalate_splitOn]

end Frames

end MessageFeed
