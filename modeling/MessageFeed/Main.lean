import MessageFeed.Client.Session

/-!
# The command line

Reads lines of the feed from the standard input, prints a report of each message to the standard
output, and writes log entries to the standard error stream, debug entries apart.

The command line takes no argument here. The one that sets the level of the log is left out, and
with it the usage text and the exit code 2 for a level that is not known. An error of the standard
input ends the program as it is: the log entry about it and the orderly end after it are left out
too.
-/

set_option autoImplicit false

namespace MessageFeed.Client

/-- Writes what a session has to say. -/
def write (transcript : Transcript) : IO Unit := do
  let out ← IO.getStdout
  out.write ⟨transcript.output.toArray⟩
  out.flush
  let err ← IO.getStderr
  for entry in transcript.log do
    if entry.level ≠ .debug then
      err.putStr s!"[{entry.level.name}] "
      err.write ⟨(entry.text ++ [Bytes.newline]).toArray⟩

/-- Reads blocks until the session is to stop, or one is empty, which is the end of the input. -/
partial def readBlocks (session : Session) : IO Unit := do
  let (stopped, session) := session.poll
  if stopped then
    write session.leave
  else
    let block ← (← IO.getStdin).read blockSize.toUSize
    if block.isEmpty then
      write session.close
    else
      let (next, transcript) := session.read block.toList
      write transcript
      readBlocks next

end MessageFeed.Client

/-- Runs the client on the standard input. -/
def main : IO UInt32 := do
  let (session, transcript) := MessageFeed.Client.Session.start
  MessageFeed.Client.write transcript
  match session with
  | .error _ => return 1
  | .ok session =>
    MessageFeed.Client.readBlocks session
    return 0
