import Turnstile.Clock
import Turnstile.Window
import Turnstile.Ring
import Turnstile.Sink
import Turnstile.Config
import Turnstile.Validator
import Turnstile.Pool.Workshop
import Turnstile.Service
import Turnstile.Builder
import Turnstile.Site.System
import Turnstile.Service.System
import Turnstile.Steps
import Turnstile.Ring.System
import Turnstile.Version
import Turnstile.Pool.Step
import Turnstile.Pool.Work
import Turnstile.Index
import Turnstile.Proofs.History
import Turnstile.Proofs.Ring.Slots
import Turnstile.Proofs.Ring.Events
import Turnstile.Proofs.Ring.Interleaving
import Turnstile.Proofs.Ring.Backlog
import Turnstile.Proofs.Controller
import Turnstile.Proofs.Window.Judged
import Turnstile.Proofs.Site.Ledger
import Turnstile.Proofs.Site.Calls
import Turnstile.Proofs.Site.Admission
import Turnstile.Proofs.Pool.Ledger
import Turnstile.Proofs.Pool.ExactlyOnce
import Turnstile.Proofs.Site.Balance
import Turnstile.Proofs.Site.Offers
import Turnstile.Proofs.Site.Conservation
import Turnstile.Proofs.Controller.Flush
import Turnstile.Proofs.Site.Sequence
import Turnstile.Proofs.Site.Isolation
import Turnstile.Proofs.Pool.Progress
import Turnstile.Proofs.Pool.Lifecycle
import Turnstile.Proofs.Pool.Counters
import Turnstile.Proofs.Pool.Threads
import Turnstile.Proofs.Service.Moves
import Turnstile.Proofs.Service.Components
import Turnstile.Proofs.Service.Jobs
import Turnstile.Proofs.Service.Conduct
import Turnstile.Proofs.Service.Submissions
import Turnstile.Proofs.Service.Runs
import Turnstile.Proofs.Service.Books
import Turnstile.Proofs.Service.Reconciliation
import Turnstile.Proofs.Site.Accounts
import Turnstile.Proofs.Service.ShutdownPoints
import Turnstile.Proofs.Service.Flushers
import Turnstile.Proofs.Service.LifecycleSteps
import Turnstile.Proofs.Service.Halt
import Turnstile.Proofs.Service.Closed
import Turnstile.Proofs.Service.Handlers
import Turnstile.Proofs.Service.LastFlush
import Turnstile.Proofs.Service.Claims
import Turnstile.Proofs.Service.Shutdown
import Turnstile.Proofs.Service.Lifetime
import Turnstile.Proofs.Service.EndsOnce
import Turnstile.Proofs.Window.Recount
import Turnstile.Proofs.Window.Greedy
import Turnstile.Proofs.Window.OneReading
import Turnstile.Proofs.Site.NextFlush
import Turnstile.Proofs.Site.Simultaneous
import Turnstile.Proofs.Window.Denials
import Turnstile.Proofs.Window.Retry
import Turnstile.Proofs.Site.Numbering
import Turnstile.Proofs.Site.MoreFlushes
import Turnstile.Proofs.Binary64.Nearest
import Turnstile.Proofs.Binary64.Rounding
import Turnstile.Proofs.Binary64.Arithmetic
import Turnstile.Proofs.Health
import Turnstile.Proofs.Window.Removals
import Turnstile.Proofs.Validator
import Turnstile.Proofs.Clock
import Turnstile.Ring.Checked
import Turnstile.Site.Machine
import Turnstile.Proofs.Ring.Checked
import Turnstile.Proofs.Site.Machine
import Turnstile.Proofs.Site.Locks
import Turnstile.Proofs.Site.Soundness
import Turnstile.Proofs.Site.Faultless
import Turnstile.Proofs.Site.Undisturbed
import Turnstile.Proofs.Site.Totals
import Turnstile.Proofs.Site.Overflows
