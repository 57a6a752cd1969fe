import PermitRing.Backoff
import PermitRing.Command.Benchmark
import PermitRing.Command.Demo
import PermitRing.Command.Elapsed
import PermitRing.Command.Relay
import PermitRing.Command.Script
import PermitRing.Command.Stress
import PermitRing.Config
import PermitRing.Discipline
import PermitRing.Environment
import PermitRing.Fault
import PermitRing.Gate.Basic
import PermitRing.Gate.Session
import PermitRing.Index.Basic
import PermitRing.Index.Race
import PermitRing.Layout
import PermitRing.Lifecycle
import PermitRing.Log.Access
import PermitRing.Log.Level
import PermitRing.Log.Line
import PermitRing.Log.Logger
import PermitRing.Log.Settings
import PermitRing.Main
import PermitRing.Parker.Basic
import PermitRing.Parker.Session
import PermitRing.Patience
import PermitRing.Permits.Basic
import PermitRing.Permits.Session
import PermitRing.Progress
import PermitRing.Proofs.Index.Rotation
import PermitRing.Proofs.Log.Consistency
import PermitRing.Proofs.Machine.Closing
import PermitRing.Proofs.Machine.SlotWaits
import PermitRing.Proofs.Machine.Terminal
import PermitRing.Proofs.Machine.Uninterrupted
import PermitRing.Proofs.Queue.Easing
import PermitRing.Proofs.Queue.Refinement
import PermitRing.Proofs.Session.Rollback
import PermitRing.Proofs.Session.Stranding
import PermitRing.Proofs.Slot.Channel
import PermitRing.Proofs.Storage.Traffic
import PermitRing.Proofs.Sums
import PermitRing.Queue.Answer
import PermitRing.Queue.Basic
import PermitRing.Queue.Machine
import PermitRing.Queue.Point
import PermitRing.Queue.Session
import PermitRing.Refusal
import PermitRing.Ring
import PermitRing.Slot
import PermitRing.Storage
import PermitRing.Text.Blank
import PermitRing.Text.Hidden
import PermitRing.Text.Letters
import PermitRing.Text.Numeral
import PermitRing.Text.Outline
import PermitRing.Text.Quoted
import PermitRing.Transfer
import PermitRing.Word
import PermitRing.Proofs.Permits.Inquiry
import PermitRing.Proofs.Permits.Sweep
import PermitRing.Proofs.Permits.Semaphore
import PermitRing.Proofs.Queue.Interchange
import PermitRing.Proofs.Session.Interchange
import PermitRing.Proofs.Session.Custody
import PermitRing.Proofs.Session.Dropping
import PermitRing.Proofs.Parker.EventCount
import PermitRing.Proofs.Index.Sequence
import PermitRing.Proofs.Text.Readers
import PermitRing.Proofs.Precedence
import PermitRing.Proofs.Session.Diagnostics
