import MessageFeed.Bytes.Basic

/-!
# Kinds of messages

The first argument of a message, its command, says what kind of message it is. There are twenty-four
known kinds, each with one keyword, in small letters, by which its command is recognised, and one
name, in capitals, by which the kind is reported. A command that is no keyword is of the kind
`unknown`.
-/

set_option autoImplicit false

namespace MessageFeed.Message

/-- What a message is about. -/
inductive Kind where
  | conOk
  | conErr
  | ended
  | loop
  | probe
  | sync
  | noop
  | reqOk
  | reqErr
  | error
  | subOk
  | subCmd
  | unsub
  | eos
  | cs
  | ov
  | conf
  | update
  | msgDone
  | msgFail
  | servName
  | clientIp
  | cons
  | prg
  | unknown
  deriving DecidableEq, Repr

namespace Kind

/-- The name by which a kind is reported. -/
def name : Kind → Bytes
  | conOk => .ofString "CONOK"
  | conErr => .ofString "CONERR"
  | ended => .ofString "END"
  | loop => .ofString "LOOP"
  | probe => .ofString "PROBE"
  | sync => .ofString "SYNC"
  | noop => .ofString "NOOP"
  | reqOk => .ofString "REQOK"
  | reqErr => .ofString "REQERR"
  | error => .ofString "ERROR"
  | subOk => .ofString "SUBOK"
  | subCmd => .ofString "SUBCMD"
  | unsub => .ofString "UNSUB"
  | eos => .ofString "EOS"
  | cs => .ofString "CS"
  | ov => .ofString "OV"
  | conf => .ofString "CONF"
  | update => .ofString "U"
  | msgDone => .ofString "MSGDONE"
  | msgFail => .ofString "MSGFAIL"
  | servName => .ofString "SERVNAME"
  | clientIp => .ofString "CLIENTIP"
  | cons => .ofString "CONS"
  | prg => .ofString "PRG"
  | unknown => .ofString "UNKNOWN"

/-- The keywords and the kinds that they announce. -/
def keywords : List (Bytes × Kind) :=
  [(.ofString "conok", conOk),
   (.ofString "conerr", conErr),
   (.ofString "end", ended),
   (.ofString "loop", loop),
   (.ofString "probe", probe),
   (.ofString "sync", sync),
   (.ofString "noop", noop),
   (.ofString "reqok", reqOk),
   (.ofString "reqerr", reqErr),
   (.ofString "error", error),
   (.ofString "subok", subOk),
   (.ofString "subcmd", subCmd),
   (.ofString "unsub", unsub),
   (.ofString "eos", eos),
   (.ofString "cs", cs),
   (.ofString "ov", ov),
   (.ofString "conf", conf),
   (.ofString "u", update),
   (.ofString "msgdone", msgDone),
   (.ofString "msgfail", msgFail),
   (.ofString "servname", servName),
   (.ofString "clientip", clientIp),
   (.ofString "cons", cons),
   (.ofString "prg", prg)]

/-- The kind that a command announces. -/
def ofCommand (command : Bytes) : Kind :=
  (keywords.lookup command).getD unknown

/-- All kinds, in the order of their numbers. -/
def all : List Kind :=
  [conOk, conErr, ended, loop, probe, sync, noop, reqOk, reqErr, error, subOk, subCmd, unsub,
   eos, cs, ov, conf, update, msgDone, msgFail, servName, clientIp, cons, prg, unknown]

/-- The number of a kind. -/
def number (kind : Kind) : Nat :=
  all.idxOf kind

/-- The kind with a given number. A number that belongs to no kind stands for the unknown one. -/
def ofNumber : Int → Kind
  | .ofNat n => all[n]?.getD unknown
  | .negSucc _ => unknown

/-- Every kind has a number. -/
theorem mem_all (kind : Kind) : kind ∈ all := by
  cases kind <;> decide

/-- A kind is found by its number. -/
theorem ofNumber_number (kind : Kind) : ofNumber kind.number = kind := by
  cases kind <;> rfl

end Kind

end MessageFeed.Message
