import MessageFeed.Client.Reader
import MessageFeed.Signal.Switchboard

/-!
# A session of the client

The client installs a signal hook, reads lines until its input ends or the permit of its hook says
that it is to stop, and takes the hook away again. A session is given by the blocks in which the
input arrives, and comes to an exit code, an output and a log. No signal comes while it lasts.

Two ways out of the client are not here. It takes a level for its log as an argument, and leaves
with a usage text and the exit code 2 if it does not know the level: here there is no argument, and
every entry is logged whatever its level. And if its input cannot be read, the client logs that as
an error and leaves: here all reading succeeds, up to the end of the input.
-/

set_option autoImplicit false

namespace MessageFeed.Client

open Bytes
open Signal (Switchboard InstallError Slot)

/-- What has been written: the output, and the log next to it. -/
structure Transcript where
  output : Bytes
  log : List Log.Entry
  deriving DecidableEq, Repr

namespace Transcript

/-- What is written first and what is written next, together. -/
def append (first next : Transcript) : Transcript :=
  ⟨first.output ++ next.output, first.log ++ next.log⟩

instance : Append Transcript := ⟨append⟩

/-- Log entries and no output. -/
def ofLog (log : List Log.Entry) : Transcript :=
  ⟨[], log⟩

/-- What is written about some lines. -/
def ofReadings (readings : List Reading) : Transcript :=
  ⟨readings.flatMap Reading.output, readings.map Reading.entry⟩

end Transcript

/-- The slot whose permit stops the client. -/
def shutdownSlot : Slot := 0

/-- A client that reads: its hook among the permits, and its reader. It has begun without an
argument for the level of its log, and reading has not failed so far. -/
structure Session where
  switchboard : Switchboard
  reader : Reader

namespace Session

/-- Makes a hook and installs it. The session begins, unless the hook refuses. -/
def start : Except InstallError Session × Transcript :=
  let (switchboard, reply) := Switchboard.fresh.step (.install (some shutdownSlot))
  let log := Signal.Hook.creationLog ++ reply.log
  match reply.answer with
  | .refused e =>
    (.error e, .ofLog (log ++
      [Log.error (ofString "Cannot install signal handler: " ++ e.fault.describe)]))
  | _ =>
    (.ok ⟨switchboard, .fresh⟩, .ofLog (log ++
      [Log.info (ofString "Reading TLCP lines from stdin. Ctrl+C to stop.")]))

/-- Takes the permit that stops the client, if there is one: whether there was, and the session
without it. -/
def poll (session : Session) : Bool × Session :=
  let (switchboard, reply) := session.switchboard.step (.poll shutdownSlot)
  (reply.answer = .polled true, { session with switchboard })

/-- Takes a block of input. -/
def read (session : Session) (block : Bytes) : Session × Transcript :=
  let (reader, readings) := session.reader.feed block
  ({ session with reader }, .ofReadings readings)

/-- Cancels the hook and ends. -/
def leave (session : Session) : Transcript :=
  .ofLog ((session.switchboard.step (.cancel none)).2.log ++
    [Log.info (ofString "Program exited gracefully.")])

/-- Takes the end of the input and leaves. -/
def close (session : Session) : Transcript :=
  let (reader, readings) := session.reader.finish
  .ofReadings readings ++
    .ofLog [Log.debug (ofString "stdin closed after " ++ decimal reader.count ++
      ofString " lines")] ++
    session.leave

/-- Takes blocks of input one after another, and then the end of the input. Before each of these
the client looks whether it is to stop, and leaves at once if it is. -/
def readAll (session : Session) (input : List Bytes) : Transcript :=
  match session.poll with
  | (true, session) => session.leave
  | (false, session) =>
    match input with
    | [] => session.close
    | block :: more =>
      let (next, transcript) := session.read block
      transcript ++ next.readAll more

end Session

/-- How a session ends: its exit code and all it has written. -/
structure Ending where
  exitCode : Nat
  transcript : Transcript
  deriving DecidableEq, Repr

/-- A whole session whose input arrives in the given blocks. -/
def run (input : List Bytes) : Ending :=
  match Session.start with
  | (.error _, transcript) => ⟨1, transcript⟩
  | (.ok session, transcript) => ⟨0, transcript ++ session.readAll input⟩

end MessageFeed.Client
