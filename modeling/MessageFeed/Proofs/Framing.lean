import MessageFeed.Framing
import MessageFeed.Message.Basic

/-!
# Lines do not depend on the chunks

Frames are *clean* when no line and no rest of them has a newline. Cutting a buffer gives clean
frames, and clean frames are what cutting their own stream gives (`cut_assemble`), so `cut` and
`assemble` are inverse to each other on clean frames. Everything else here follows from that: where
a buffer is cut before more bytes come does not matter (`cut_append`), hence feeding chunks gathers
the frames of their concatenation (`gather_feedAll`), whatever the chunks are.
-/

set_option autoImplicit false

namespace MessageFeed.Frames

open Bytes

/-- Frames as a stream can bring them: no line and no rest has a newline. -/
structure IsClean (frames : Frames) : Prop where
  lines : ∀ line ∈ frames.lines, newline ∉ line
  rest : newline ∉ frames.rest

/-- All the lines that some steps brought, and what the last of them left in a buffer that first
held the bytes given. -/
def gather (buffer : Bytes) (steps : List Frames) : Frames :=
  ⟨steps.flatMap Frames.lines, (steps.getLast?.map Frames.rest).getD buffer⟩

/-- The lines that some steps brought, each read as a message. -/
def answers (steps : List Frames) : List (Except Message.LineError Message) :=
  steps.flatMap fun frames => frames.lines.map Message.ofLine

/-! ## Cutting and assembling -/

/-- What is between newlines has no newline in it. -/
theorem not_mem_of_mem_splitOn (text segment : Bytes) (h : segment ∈ text.splitOn newline) :
    newline ∉ segment := by
  induction text generalizing segment with
  | nil =>
    rw [List.splitOn_nil, List.mem_singleton] at h
    simp [h]
  | cons b text ih =>
    rw [List.splitOn_cons_eq_if_modifyHead] at h
    split at h
    · rcases List.mem_cons.mp h with rfl | h
      · exact List.not_mem_nil
      · exact ih segment h
    · rename_i hb
      cases hs : text.splitOn newline with
      | nil => simp [hs] at h
      | cons first more =>
        rw [hs, List.modifyHead_cons] at h
        rcases List.mem_cons.mp h with rfl | h
        · have hfirst := ih first (by simp [hs])
          have hne : newline ≠ b := fun heq => hb (by simp [heq])
          simp [hne, hfirst]
        · exact ih segment (by simp [hs, h])

/-- Cutting a buffer leaves no newline in any line or in the rest. -/
theorem isClean_cut (buffer : Bytes) : (cut buffer).IsClean := by
  have hne : buffer.splitOn newline ≠ [] := List.splitOn_ne_nil newline buffer
  constructor
  · intro line hline
    exact not_mem_of_mem_splitOn buffer line (List.dropLast_subset _ hline)
  · simp only [cut, List.getLast?_eq_some_getLast hne, Option.getD_some]
    exact not_mem_of_mem_splitOn buffer _ (List.getLast_mem hne)

/-- Clean frames are found again in their own stream. -/
theorem cut_assemble (frames : Frames) (h : frames.IsClean) : cut frames.assemble = frames := by
  obtain ⟨lines, rest⟩ := frames
  have hclean : ∀ segment ∈ lines ++ [rest], newline ∉ segment := by
    intro segment hs
    rcases List.mem_append.mp hs with hs | hs
    · exact h.lines segment hs
    · rw [List.mem_singleton.mp hs]
      exact h.rest
  rw [assemble_eq_intercalate]
  simp only [cut, List.splitOn_intercalate newline hclean (by simp)]
  simp

/-- A buffer without a newline has no complete line. -/
theorem cut_of_not_mem (buffer : Bytes) (h : newline ∉ buffer) : cut buffer = ⟨[], buffer⟩ := by
  have hclean : IsClean ⟨[], buffer⟩ := ⟨by simp, h⟩
  simpa [assemble] using cut_assemble ⟨[], buffer⟩ hclean

/-- A stream has one newline for each of its complete lines. -/
theorem count_newline_assemble (frames : Frames) (h : frames.IsClean) :
    frames.assemble.count newline = frames.lines.length := by
  obtain ⟨lines, rest⟩ := frames
  have hrest : rest.count newline = 0 := List.count_eq_zero.mpr h.rest
  have hlines : ∀ line ∈ lines, newline ∉ line := h.lines
  clear h
  simp only [assemble, List.count_append, hrest, Nat.add_zero]
  induction lines with
  | nil => rfl
  | cons line lines ih =>
    have hline : line.count newline = 0 := List.count_eq_zero.mpr (hlines line (by simp))
    have hmore := ih fun l hl => hlines l (List.mem_cons_of_mem line hl)
    simp only [List.flatMap_cons, List.count_append, hline, hmore, List.count_singleton_self,
      List.length_cons]
    omega

/-- A buffer has as many complete lines as it has newlines. -/
theorem length_lines_cut (buffer : Bytes) : (cut buffer).lines.length = buffer.count newline := by
  rw [← count_newline_assemble _ (isClean_cut buffer), assemble_cut]

/-- The stream of some lines, and then of more. -/
theorem assemble_append (lines more : List Bytes) (rest : Bytes) :
    assemble ⟨lines ++ more, rest⟩ =
      (lines.flatMap fun line => line ++ [newline]) ++ assemble ⟨more, rest⟩ := by
  simp only [assemble, List.flatMap_append, List.append_assoc]

/-- It does not matter whether a buffer is cut before more bytes are added to it: the lines are the
same, and so is the rest. -/
theorem cut_append (buffer chunk : Bytes) :
    cut (buffer ++ chunk) =
      ⟨(cut buffer).lines ++ (feed (cut buffer).rest chunk).lines,
        (feed (cut buffer).rest chunk).rest⟩ := by
  have hfirst := isClean_cut buffer
  have hnext := isClean_cut ((cut buffer).rest ++ chunk)
  have hstream : assemble ⟨(cut buffer).lines ++ (feed (cut buffer).rest chunk).lines,
      (feed (cut buffer).rest chunk).rest⟩ = buffer ++ chunk := by
    have hbuffer : ((cut buffer).lines.flatMap fun line => line ++ [newline]) ++
        (cut buffer).rest = buffer := assemble_cut buffer
    rw [assemble_append, feed, assemble_cut, ← List.append_assoc, hbuffer]
  rw [← hstream]
  refine cut_assemble _ ⟨?_, hnext.rest⟩
  intro line hline
  rcases List.mem_append.mp hline with hline | hline
  · exact hfirst.lines line hline
  · exact hnext.lines line hline

/-! ## Feeding chunks -/

/-- All lines of some steps are those of the first and those of the steps after it. -/
theorem gather_cons (buffer : Bytes) (frames : Frames) (steps : List Frames) :
    gather buffer (frames :: steps) =
      ⟨frames.lines ++ (gather frames.rest steps).lines, (gather frames.rest steps).rest⟩ := by
  cases steps with
  | nil => simp [gather]
  | cons next more => simp [gather, List.getLast?_cons]

/-- Chunks fed to a buffer that has no newline gather what cutting all the bytes at once gives. -/
theorem gather_feedAll (buffer : Bytes) (chunks : List Bytes) (h : newline ∉ buffer) :
    gather buffer (feedAll buffer chunks) = cut (buffer ++ chunks.flatten) := by
  induction chunks generalizing buffer with
  | nil => simp [gather, feedAll, cut_of_not_mem buffer h]
  | cons chunk chunks ih =>
    have hrest : newline ∉ (feed buffer chunk).rest := (isClean_cut (buffer ++ chunk)).rest
    have hsplit := cut_append (buffer ++ chunk) chunks.flatten
    rw [feedAll, gather_cons, ih _ hrest, List.flatten_cons, ← List.append_assoc, hsplit]
    rfl

/-- The first steps are what the first chunks come to. -/
theorem take_feedAll (buffer : Bytes) (chunks : List Bytes) (k : Nat) :
    (feedAll buffer chunks).take k = feedAll buffer (chunks.take k) := by
  induction chunks generalizing buffer k with
  | nil => simp [feedAll]
  | cons chunk chunks ih =>
    cases k with
    | zero => rfl
    | succ k => simp only [feedAll, List.take_succ_cons, ih]

/-- What the lines of some steps are read as depends on the lines, and not on the steps. -/
theorem answers_eq_map (buffer : Bytes) (steps : List Frames) :
    answers steps = (gather buffer steps).lines.map Message.ofLine := by
  simp only [answers, gather, List.map_flatMap]

/-- **Chunks leave no trace.** Two ways to cut one stream into chunks, empty ones included, gather
the same lines and the same rest, and so the same answers. In any one of them, after each step the
lines so far with their newlines and the rest are exactly the bytes that have come, and there is a
line for each newline among these bytes, so no line comes later than its newline. -/
theorem feedAll_independent_of_chunks :
    (∀ chunks others : List Bytes, chunks.flatten = others.flatten →
      gather [] (feedAll [] chunks) = gather [] (feedAll [] others) ∧
        answers (feedAll [] chunks) = answers (feedAll [] others)) ∧
    ∀ (chunks : List Bytes) (k : Nat),
      (gather [] ((feedAll [] chunks).take k)).assemble = (chunks.take k).flatten ∧
        (gather [] ((feedAll [] chunks).take k)).lines.length =
          (chunks.take k).flatten.count newline := by
  have hgather : ∀ chunks : List Bytes, gather [] (feedAll [] chunks) = cut chunks.flatten :=
    fun chunks => gather_feedAll [] chunks List.not_mem_nil
  constructor
  · intro chunks others hsame
    have heq : gather [] (feedAll [] chunks) = gather [] (feedAll [] others) := by
      rw [hgather, hgather, hsame]
    exact ⟨heq, by rw [answers_eq_map [], answers_eq_map [], heq]⟩
  · intro chunks k
    rw [take_feedAll, hgather]
    exact ⟨assemble_cut _, length_lines_cut _⟩

/-- A stream cut inside a line, before a newline and around an empty chunk, against the same stream
in one chunk. -/
theorem feedAll_independent_of_cut_in_line :
    [ofString "PRO", [], ofString "BE\nLOOP,0", ofString "\n\nu"].flatten =
        [ofString "PROBE\nLOOP,0\n\nu"].flatten ∧
      gather [] (feedAll [] [ofString "PRO", [], ofString "BE\nLOOP,0", ofString "\n\nu"]) =
        gather [] (feedAll [] [ofString "PROBE\nLOOP,0\n\nu"]) ∧
      answers (feedAll [] [ofString "PRO", [], ofString "BE\nLOOP,0", ofString "\n\nu"]) =
        answers (feedAll [] [ofString "PROBE\nLOOP,0\n\nu"]) :=
  ⟨by decide, feedAll_independent_of_chunks.1
    [ofString "PRO", [], ofString "BE\nLOOP,0", ofString "\n\nu"]
    [ofString "PROBE\nLOOP,0\n\nu"] (by decide)⟩

end MessageFeed.Frames
