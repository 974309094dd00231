import MessageFeed.Client.Session
import MessageFeed.Proofs.Framing

/-!
# A session in one pass

The client reads its input block by block, with a buffer, a running count and a rest that becomes a
line only at the end. What it writes is what a single pass over the lines of the whole input gives
(`onePass`): the reports of the lines that are messages, and one log entry for each line. The
invariant of the loop (`Session.readAll_eq`) is that nothing waits in the buffer but the beginning
of one line, and that no permit is stored, so that the client is never told to stop. What a session
has written at its end is thus written about its numbered lines, between an opening and a closing
(`run_eq_readings`), and the one pass is another way to say that.
-/

set_option autoImplicit false

namespace MessageFeed.Client

open Bytes
open Signal (Switchboard)
open Shutdown (Permit)

/-! ## The one-pass description -/

/-- The lines of a whole input: its segments between newlines, but for the last one if it is
empty. -/
def linesOf (input : Bytes) : List Bytes :=
  let segments := input.splitOn newline
  if segments.getLast? = some [] then segments.dropLast else segments

/-- The messages of an input: what those of its lines are read as that are not skipped. -/
def messagesOf (input : Bytes) : List Message :=
  (linesOf input).filterMap fun line => (Message.ofLine line).toOption

/-- The log entry about the line with a given number. -/
def lineEntry (line : Bytes) (number : Nat) : Log.Entry :=
  match Message.ofLine line with
  | .ok message =>
    Log.debug (ofString "line " ++ decimal number ++ ofString ": " ++
      decimal message.params.length ++ ofString " params")
  | .error _ =>
    Log.warn (ofString "Skipping line " ++ decimal number ++
      ofString ": IllegalArgument: Parser: line has no command token")

/-- What is logged before the first line. -/
def openingLog : List Log.Entry :=
  [Log.debug (ofString "SignalHook created for SIGINT/SIGTERM."),
    Log.info (ofString "Signal handler installed."),
    Log.info (ofString "Reading TLCP lines from stdin. Ctrl+C to stop.")]

/-- What is logged at the end of the input, given how many lines there were. -/
def endOfInputLog (count : Nat) : List Log.Entry :=
  [Log.debug (ofString "stdin closed after " ++ decimal count ++ ofString " lines")]

/-- What is logged at last. -/
def leavingLog : List Log.Entry :=
  [Log.info (ofString "Program exited gracefully.")]

/-- What is logged after the last of the lines, given how many there were. -/
def closingLog (count : Nat) : List Log.Entry :=
  endOfInputLog count ++ leavingLog

/-- What a session writes about an input, from its lines. -/
def onePass (input : Bytes) : Transcript where
  output := (messagesOf input).flatMap Message.report
  log :=
    openingLog ++ ((linesOf input).zipIdx 1).map (fun (line, number) => lineEntry line number) ++
    closingLog (linesOf input).length

/-! ## Lines of an input -/

/-- The line that the bytes after the last newline are, if there are any. -/
def lastLine (rest : Bytes) : List Bytes :=
  if rest = [] then [] else [rest]

/-- The lines of an input are those that a newline ends, and the last one without it. -/
theorem linesOf_eq_cut (input : Bytes) :
    linesOf input = (Frames.cut input).lines ++ lastLine (Frames.cut input).rest := by
  have hne : input.splitOn newline ≠ [] := List.splitOn_ne_nil newline input
  unfold linesOf Frames.cut lastLine
  simp only [List.getLast?_eq_some_getLast hne, Option.some.injEq, Option.getD_some]
  split
  · simp
  · simp only [List.dropLast_concat_getLast hne]

/-- The lines of an input that is cut anywhere: those that are complete before the cut, and the
lines of what is left and comes after. -/
theorem linesOf_append (a b : Bytes) :
    linesOf (a ++ b) = (Frames.cut a).lines ++ linesOf ((Frames.cut a).rest ++ b) := by
  rw [linesOf_eq_cut (a ++ b), linesOf_eq_cut ((Frames.cut a).rest ++ b), Frames.cut_append,
    Frames.feed, List.append_assoc]

/-- An input without a newline has at most one line. -/
theorem linesOf_of_not_mem (line : Bytes) (h : newline ∉ line) : linesOf line = lastLine line := by
  rw [linesOf_eq_cut, Frames.cut_of_not_mem line h, List.nil_append]

/-! ## What is written about numbered lines -/

/-- Lines that are read with numbers from a given one on. -/
def readingsFrom (number : Nat) (lines : List Bytes) : List Reading :=
  (lines.zipIdx number).map fun (line, n) => .ofLine n line

/-- Lines that come later are numbered on. -/
theorem readingsFrom_append (number : Nat) (lines more : List Bytes) :
    readingsFrom number (lines ++ more) =
      readingsFrom number lines ++ readingsFrom (number + lines.length) more := by
  simp only [readingsFrom, List.zipIdx_append, List.map_append]

/-- What is logged about a line that is read is the entry about the line. -/
theorem entry_ofLine (number : Nat) (line : Bytes) :
    (Reading.ofLine number line).entry = lineEntry line number := by
  unfold Reading.entry Reading.ofLine lineEntry
  cases Message.ofLine line with
  | ok message => rfl
  | error e =>
    cases e
    have hdescribe : ofString ": " ++ Message.LineError.noCommand.fault.describe =
        ofString ": IllegalArgument: Parser: line has no command token" := by decide
    simp only [List.append_assoc, hdescribe]

/-- What is logged about lines that are read is one entry for each. -/
theorem entries_readingsFrom (number : Nat) (lines : List Bytes) :
    (readingsFrom number lines).map Reading.entry =
      (lines.zipIdx number).map fun (line, n) => lineEntry line n := by
  simp only [readingsFrom, List.map_map, Function.comp_def, entry_ofLine]

/-- What is printed about lines that are read is the reports of those that are messages. -/
theorem output_readingsFrom (number : Nat) (lines : List Bytes) :
    (readingsFrom number lines).flatMap Reading.output =
      (lines.filterMap fun line => (Message.ofLine line).toOption).flatMap Message.report := by
  induction lines generalizing number with
  | nil => rfl
  | cons line lines ih =>
    have htail : readingsFrom number (line :: lines) =
        .ofLine number line :: readingsFrom (number + 1) lines := by simp [readingsFrom]
    rw [htail, List.flatMap_cons, ih]
    cases h : Message.ofLine line with
    | ok message => simp [Reading.ofLine, Reading.output, h, Except.toOption]
    | error e => simp [Reading.ofLine, Reading.output, h, Except.toOption]

namespace Transcript

/-- Outputs are written one behind the other. -/
@[simp] theorem output_append (first next : Transcript) :
    (first ++ next).output = first.output ++ next.output := rfl

/-- Logs are written one behind the other. -/
@[simp] theorem log_append (first next : Transcript) :
    (first ++ next).log = first.log ++ next.log := rfl

/-- What is written first, next and last does not depend on how it is grouped. -/
theorem append_assoc (a b c : Transcript) : a ++ b ++ c = a ++ (b ++ c) := by
  rw [Transcript.mk.injEq]
  simp

/-- What is written about some lines, and then about more. -/
theorem ofReadings_append (readings more : List Reading) :
    ofReadings (readings ++ more) = ofReadings readings ++ ofReadings more := by
  simp only [ofReadings, List.flatMap_append, List.map_append]
  rfl

end Transcript

/-! ## The loop -/

namespace Session

/-- No permit tells the client to stop. That holds as long as no signal comes. -/
def IsUndisturbed (session : Session) : Prop :=
  session.switchboard.permit shutdownSlot = .absent

/-- An undisturbed client that looks whether it is to stop goes on as it was. -/
theorem poll_of_isUndisturbed (session : Session) (h : session.IsUndisturbed) :
    session.poll = (false, session) := by
  obtain ⟨⟨hook, permit⟩, reader⟩ := session
  have hpermit : permit shutdownSlot = .absent := h
  have hsame : (fun slot => if slot = shutdownSlot then .absent else permit slot) = permit := by
    funext slot
    split
    · rename_i hslot
      rw [hslot, hpermit]
    · rfl
  have htake : (permit shutdownSlot).take = (false, .absent) := by
    rw [hpermit]
    rfl
  simp only [poll, Switchboard.step, htake, Switchboard.setPermit, hsame]
  simp

/-- What closing a session writes, if nothing waits in the buffer but the beginning of a line. -/
theorem close_eq (session : Session) (h : newline ∉ session.reader.pending) :
    session.close =
      .ofReadings (readingsFrom (session.reader.count + 1) (linesOf session.reader.pending)) ++
        .ofLog (endOfInputLog
          (session.reader.count + (linesOf session.reader.pending).length)) ++
        session.leave := by
  rw [linesOf_of_not_mem _ h]
  obtain ⟨switchboard, ⟨pending, count⟩⟩ := session
  cases pending with
  | nil => rfl
  | cons b line => rfl

/-- **The loop, in one pass.** What a session writes from some point on is what is written about the
lines of the bytes that wait and those that come, numbered on from the lines so far, and the closing
entries with the number of all lines. -/
theorem readAll_eq (session : Session) (input : List Bytes) (hpermit : session.IsUndisturbed)
    (hpending : newline ∉ session.reader.pending) :
    session.readAll input =
      .ofReadings (readingsFrom (session.reader.count + 1)
        (linesOf (session.reader.pending ++ input.flatten))) ++
      .ofLog (endOfInputLog (session.reader.count +
        (linesOf (session.reader.pending ++ input.flatten)).length)) ++
      session.leave := by
  induction input generalizing session with
  | nil =>
    unfold readAll
    simp only [poll_of_isUndisturbed session hpermit, close_eq session hpending, List.flatten_nil,
      List.append_nil]
  | cons block more ih =>
    have hrest := (Frames.isClean_cut (session.reader.pending ++ block)).rest
    have hnext := ih (session.read block).1 hpermit hrest
    have hlines := linesOf_append (session.reader.pending ++ block) more.flatten
    have hwritten : (session.read block).2 = .ofReadings (readingsFrom (session.reader.count + 1)
        (Frames.cut (session.reader.pending ++ block)).lines) := rfl
    have hreader : (session.read block).1.reader =
        ⟨(Frames.cut (session.reader.pending ++ block)).rest,
          session.reader.count + (Frames.cut (session.reader.pending ++ block)).lines.length⟩ := rfl
    have hleave : (session.read block).1.leave = session.leave := rfl
    simp only [hreader, hleave, Nat.add_right_comm _ _ 1, Nat.add_assoc] at hnext
    unfold readAll
    simp only [poll_of_isUndisturbed session hpermit, hnext, hwritten]
    rw [List.flatten_cons, ← List.append_assoc, hlines, readingsFrom_append,
      Transcript.ofReadings_append, List.length_append]
    simp only [Transcript.append_assoc, Nat.add_assoc]

end Session

/-- The session begins: the hook is installed, nothing has been read, and leaving it now would write
nothing but that. -/
theorem exists_start : ∃ session, Session.start = (.ok session, .ofLog openingLog) ∧
    session.IsUndisturbed ∧ session.reader = .fresh ∧ session.leave = .ofLog leavingLog :=
  ⟨_, rfl, rfl, rfl, rfl⟩

/-- A session writes what there is to write about its lines, between an opening and a closing. -/
theorem run_eq_readings (input : List Bytes) :
    run input = ⟨0, .ofLog openingLog ++ .ofReadings (readingsFrom 1 (linesOf input.flatten)) ++
      .ofLog (closingLog (linesOf input.flatten).length)⟩ := by
  obtain ⟨session, hstart, hpermit, hreader, hleave⟩ := exists_start
  have hpending : newline ∉ session.reader.pending := by simp [hreader, Reader.fresh]
  have hwritten := session.readAll_eq input hpermit hpending
  rw [hreader, hleave] at hwritten
  unfold run
  rw [hstart]
  simp only [hwritten, Reader.fresh, List.nil_append, Nat.zero_add, Transcript.append_assoc]
  rfl

/-- A session prints the reports of its messages. -/
theorem output_run (input : List Bytes) :
    (run input).transcript.output = (messagesOf input.flatten).flatMap Message.report := by
  rw [run_eq_readings, messagesOf, ← output_readingsFrom 1]
  simp [Transcript.ofLog, Transcript.ofReadings]

/-- A session logs an opening, what its lines were read as, and a closing. -/
theorem log_run (input : List Bytes) :
    (run input).transcript.log =
      openingLog ++ (readingsFrom 1 (linesOf input.flatten)).map Reading.entry ++
        closingLog (linesOf input.flatten).length := by
  rw [run_eq_readings]
  rfl

/-- **A session in one pass.** However the input is cut into blocks, the session ends with the exit
code 0, prints the reports of the lines that are messages, in order, and logs the three entries of
the start, one entry for each line, numbered from one, and the two entries of the end. The blocks
that the client reads at once are one such way to cut the input. -/
theorem run_eq_onePass :
    (∀ input : List Bytes, run input = ⟨0, onePass input.flatten⟩) ∧
      ∀ input : Bytes, run (blocks blockSize input) = ⟨0, onePass input⟩ := by
  have hrun : ∀ input : List Bytes, run input = ⟨0, onePass input.flatten⟩ := by
    intro input
    have hwritten : (run input).transcript = onePass input.flatten := by
      rw [Transcript.mk.injEq, output_run, log_run, entries_readingsFrom]
      exact ⟨rfl, rfl⟩
    have hcode : (run input).exitCode = 0 := by rw [run_eq_readings]
    rw [← hwritten, ← hcode]
  exact ⟨hrun, fun input => by rw [hrun, flatten_blocks]⟩

end MessageFeed.Client
