import MessageFeed.Proofs.Client.Output

/-!
# Normalized input is a fixpoint

The normal texts of the messages of an input, one on each line, are an input themselves
(`normalized`). Its lines are exactly these texts (`linesOf_normalized`), and each of them is read
as the message it came from (`messagesOf_normalized`). So the client prints the same about it, skips
nothing, and numbers the messages from one (`run_normalized`).
-/

set_option autoImplicit false

namespace MessageFeed.Client

open Bytes

/-- The normal texts of the messages of an input, each ended by a newline. -/
def normalized (input : Bytes) : Bytes :=
  (messagesOf input).flatMap fun message => message.cleaned ++ [newline]

/-- The log entry about a message that is read from the line with a given number. -/
def messageEntry (message : Message) (number : Nat) : Log.Entry :=
  Log.debug (ofString "line " ++ decimal number ++ ofString ": " ++
    decimal message.params.length ++ ofString " params")

/-! ## The lines of normalized input -/

/-- Texts without newlines, each ended by one, are the lines of what they make up. -/
theorem linesOf_assemble (lines : List Bytes) (h : ∀ line ∈ lines, newline ∉ line) :
    linesOf (Frames.assemble ⟨lines, []⟩) = lines := by
  have hcut : Frames.cut (Frames.assemble ⟨lines, []⟩) = ⟨lines, []⟩ :=
    Frames.cut_assemble _ ⟨h, List.not_mem_nil⟩
  rw [linesOf_eq_cut, hcut]
  exact List.append_nil lines

/-- Normalized input is made up by the normal texts as lines. -/
theorem normalized_eq_assemble (input : Bytes) :
    normalized input = Frames.assemble ⟨(messagesOf input).map Message.cleaned, []⟩ := by
  simp [normalized, Frames.assemble, List.flatMap_map]

/-- The lines of normalized input are the normal texts. -/
theorem linesOf_normalized (input : Bytes) :
    linesOf (normalized input) = (messagesOf input).map Message.cleaned := by
  rw [normalized_eq_assemble]
  apply linesOf_assemble
  intro text htext
  obtain ⟨message, hmessage, rfl⟩ := List.mem_map.mp htext
  obtain ⟨line, hline⟩ := exists_of_mem_messagesOf input message hmessage
  rw [((Message.ofLine_eq_ok_iff line message).mp hline).2.2.1]
  exact Message.newline_not_mem_of_isNormal _ (Message.isNormal_of_mem_fold line)

/-- Normalized input has the same messages as the input, but for their raw texts. -/
theorem messagesOf_normalized (input : Bytes) :
    messagesOf (normalized input) =
      (messagesOf input).map fun message => { message with raw := message.cleaned } := by
  rw [messagesOf, linesOf_normalized, List.filterMap_map, ← List.filterMap_eq_map]
  apply List.filterMap_congr
  intro message hmessage
  obtain ⟨line, hline⟩ := exists_of_mem_messagesOf input message hmessage
  rw [Function.comp_apply, Message.ofLine_cleaned line message hline]
  rfl

/-- Normalizing an input twice is normalizing it once. -/
theorem normalized_normalized (input : Bytes) :
    normalized (normalized input) = normalized input := by
  rw [normalized, messagesOf_normalized, List.flatMap_map]
  rfl

/-! ## What is logged about normalized input -/

/-- What is logged about a normal text is what is logged about the message that has it. -/
theorem lineEntry_cleaned (line : Bytes) (message : Message) (number : Nat)
    (h : Message.ofLine line = .ok message) :
    lineEntry message.cleaned number = messageEntry message number := by
  rw [lineEntry, Message.ofLine_cleaned line message h]
  rfl

/-- About normalized input there is one entry for each message. -/
theorem entries_linesOf_normalized (input : Bytes) :
    (readingsFrom 1 (linesOf (normalized input))).map Reading.entry =
      ((messagesOf input).zipIdx 1).map fun (message, number) => messageEntry message number := by
  rw [entries_readingsFrom, linesOf_normalized, List.zipIdx_map, List.map_map]
  apply List.map_congr_left
  rintro ⟨message, number⟩ hentry
  obtain ⟨line, hline⟩ := exists_of_mem_messagesOf input message (List.fst_mem_of_mem_zipIdx hentry)
  simp only [Function.comp_apply, Prod.map_apply, id_eq]
  rw [lineEntry_cleaned line message number hline]

/-- The opening warns of nothing. -/
theorem level_ne_warn_of_mem_openingLog : ∀ entry ∈ openingLog, entry.level ≠ .warn := by
  decide

/-- The closing warns of nothing. -/
theorem level_ne_warn_of_mem_closingLog (count : Nat) :
    ∀ entry ∈ closingLog count, entry.level ≠ .warn := by
  simp [closingLog, endOfInputLog, leavingLog, Log.debug, Log.info]

/-- **Normalized input is a fixpoint.** Normalizing an input twice is normalizing it once. However
an input and its normalized form arrive, the client prints the same about both. About the normalized
one it logs an entry for each message of the input, numbered from one, and closes after as many
lines; so it skips no line and warns of nothing. -/
theorem run_normalized :
    (∀ input, normalized (normalized input) = normalized input) ∧
    ∀ input again : List Bytes, again.flatten = normalized input.flatten →
      (run again).exitCode = 0 ∧
      (run again).transcript.output = (run input).transcript.output ∧
      (run again).transcript.log =
        openingLog ++
          ((messagesOf input.flatten).zipIdx 1).map
            (fun (message, number) => messageEntry message number) ++
          closingLog (messagesOf input.flatten).length ∧
      ∀ entry ∈ (run again).transcript.log, entry.level ≠ .warn := by
  refine ⟨normalized_normalized, ?_⟩
  intro input again hagain
  have hlog : (run again).transcript.log =
      openingLog ++
        ((messagesOf input.flatten).zipIdx 1).map
          (fun (message, number) => messageEntry message number) ++
        closingLog (messagesOf input.flatten).length := by
    rw [log_run, hagain, entries_linesOf_normalized, linesOf_normalized, List.length_map]
  refine ⟨?_, ?_, hlog, ?_⟩
  · rw [run_eq_readings]
  · rw [output_run, output_run, hagain, messagesOf_normalized, List.flatMap_map]
    rfl
  · intro entry hentry
    rw [hlog, List.mem_append, List.mem_append] at hentry
    rcases hentry with (hopening | hline) | hclosing
    · exact level_ne_warn_of_mem_openingLog entry hopening
    · obtain ⟨numbered, -, rfl⟩ := List.mem_map.mp hline
      intro hwarn
      cases hwarn
    · exact level_ne_warn_of_mem_closingLog _ entry hclosing

/-- An input with a break inside a line, a blank line, an empty one and an unterminated last one,
and its normalized form cut elsewhere. -/
theorem run_normalized_unterminated :
    [ofString "u,\x7ba\npr", ofString "obe\n"].flatten =
        normalized [ofString "U,\x7bA\r\n ,\n\nPRO", ofString "BE"].flatten ∧
      (run [ofString "u,\x7ba\npr", ofString "obe\n"]).transcript.output =
        (run [ofString "U,\x7bA\r\n ,\n\nPRO", ofString "BE"]).transcript.output ∧
      ∀ entry ∈ (run [ofString "u,\x7ba\npr", ofString "obe\n"]).transcript.log,
        entry.level ≠ .warn := by
  have hagain : [ofString "u,\x7ba\npr", ofString "obe\n"].flatten =
      normalized [ofString "U,\x7bA\r\n ,\n\nPRO", ofString "BE"].flatten := by
    decide
  obtain ⟨-, houtput, -, hlevels⟩ := run_normalized.2 _ _ hagain
  exact ⟨hagain, houtput, hlevels⟩

end MessageFeed.Client
