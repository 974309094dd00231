import MessageFeed.Bytes.Basic
import MessageFeed.Bytes.Nesting
import MessageFeed.Client.Reader
import MessageFeed.Client.Session
import MessageFeed.Fault
import MessageFeed.Framing
import MessageFeed.Log
import MessageFeed.Main
import MessageFeed.Message.Basic
import MessageFeed.Message.Disguise
import MessageFeed.Message.Kind
import MessageFeed.Message.Normal
import MessageFeed.Message.Report
import MessageFeed.Position
import MessageFeed.Proofs.Framing
import MessageFeed.Proofs.Message.Grammar
import MessageFeed.Proofs.Message.Normal
import MessageFeed.Proofs.Token.Depth
import MessageFeed.Proofs.Token.Layout
import MessageFeed.Shutdown.Permit
import MessageFeed.Shutdown.Room
import MessageFeed.Shutdown.Rounds
import MessageFeed.Signal.Hook
import MessageFeed.Signal.Mode
import MessageFeed.Signal.Source
import MessageFeed.Signal.Switchboard
import MessageFeed.Token.Basic
import MessageFeed.Token.Layout
import MessageFeed.Token.Pieces
import MessageFeed.Proofs.Signal.Drain
import MessageFeed.Proofs.Signal.Waits
import MessageFeed.Proofs.Client.Lines
import MessageFeed.Proofs.Signal.Reaction
import MessageFeed.Proofs.Signal.Course
import MessageFeed.Proofs.Signal.Notices
import MessageFeed.Proofs.Signal.Installed
import MessageFeed.Proofs.Signal.Sequential
import MessageFeed.Proofs.Shutdown.Actions
import MessageFeed.Proofs.Shutdown.Permit
import MessageFeed.Proofs.Shutdown.Rounds
import MessageFeed.Proofs.Shutdown.Progress
import MessageFeed.Proofs.Shutdown.Burst
import MessageFeed.Proofs.Token.Segment
import MessageFeed.Proofs.Message.Kind
import MessageFeed.Proofs.Message.Report
import MessageFeed.Proofs.Client.Output
import MessageFeed.Proofs.Client.Normalized
import MessageFeed.Proofs.Signal.Idle
import MessageFeed.Proofs.Token.Pieces
import MessageFeed.Proofs.Message.Runs
import MessageFeed.Proofs.Token.Append
import MessageFeed.Proofs.Token.Group
import MessageFeed.Proofs.Message.Refusal
import MessageFeed.Proofs.Position.Lines
import MessageFeed.Proofs.Signal.Handling
import MessageFeed.Proofs.Position.Rounds
import MessageFeed.Proofs.Token.Scan
import MessageFeed.Proofs.Token.Word
import MessageFeed.Proofs.Position.Tokens
import MessageFeed.Proofs.Position.Bounds
