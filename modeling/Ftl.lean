import Ftl.Foundation.Runs
import Ftl.Foundation.Machine
import Ftl.Foundation.Upsert
import Ftl.Foundation.FirstMatch
import Ftl.Foundation.FdTable
import Ftl.Foundation.Ledger
import Ftl.Foundation.Shuffle
import Ftl.Foundation.Decimal
import Ftl.Foundation.Handover
import Ftl.Foundation.Custody
import Ftl.Foundation.Walk
import Ftl.Foundation.Heap
import Ftl.Foundation.Fallible
import Ftl.Foundation.Stutter
import Ftl.Foundation.Budget
import Ftl.Foundation.Scopes
import Ftl.Core.Fd
import Ftl.Core.Ownership
import Ftl.Core.ScopeGuard
import Ftl.Io.Stdio
import Ftl.Io.Capture
import Ftl.Io.FdCapture
import Ftl.Io.NestedCapture
import Ftl.Process.Syscall
import Ftl.Process.World
import Ftl.Process.Subprocess
import Ftl.Process.RunCommand
import Ftl.Process.Runner
import Ftl.Process.Collection
import Ftl.Process.Feeding
import Ftl.Process.Echo
import Ftl.Process.SigPipe
import Ftl.Process.Interrupts
import Ftl.Process.ChildExec
import Ftl.Process.Concurrent
import Ftl.Process.Separation
import Ftl.Process.Lifetime
import Ftl.Process.CLifetime
import Ftl.Process.Environment
import Ftl.Process.ExecSearch
import Ftl.Process.PathScan
import Ftl.Process.ExitStatus
import Ftl.Process.TimedOut
import Ftl.Process.Clocked
import Ftl.Process.Timing
import Ftl.Process.Deadline
import Ftl.Process.Overflow
import Ftl.Process.CTiming
import Ftl.Process.CDeadline
import Ftl.Process.Agreement
import Ftl.Process.Responsive
import Ftl.Process.DeadlineResponse
import Ftl.Process.Blocking
import Ftl.Process.Filters
import Ftl.Io.PartialWrites
import Ftl.Io.TempFile
import Ftl.Io.TempDir
import Ftl.Io.TempScopes
import Ftl.Io.TempPaths
import Ftl.Process.OutputBuffer
import Ftl.Process.RunResults
import Ftl.Process.ChildFailure
import Ftl.Process.Argv
import Ftl.Process.Launch
import Ftl.Test.Framework
import Ftl.Test.Matchers
import Ftl.Test.FdTrack
import Ftl.Test.GuardedBodies
import Ftl.Test.Guards
import Ftl.Test.Exhaustion
import Ftl.Test.Suites
import Ftl.Test.CliTests
import Ftl.Thread.StuckThreadGuard
import Ftl.Thread.Probing
import Ftl.Thread.Builds
import Ftl.Thread.Rejoin
import Ftl.Thread.Reporting
import Ftl.Thread.TimedWait
