import GtLogging.Lib.Disk
import GtLogging.Lib.StepMachine
import GtLogging.Lib.Journal
import GtLogging.Lib.TextSearch
import GtLogging.Lib.History
import GtLogging.Lib.Iostream
import GtLogging.Lib.OrderedMap
import GtLogging.Basic
import GtLogging.RotationStrategy
import GtLogging.Rotate
import GtLogging.FileDestination
import GtLogging.RotateFaults
import GtLogging.Reopen
import GtLogging.Retention
import GtLogging.Restart
import GtLogging.Level
import GtLogging.Formatter
import GtLogging.LevelRecovery
import GtLogging.Stream
import GtLogging.LogOnce
import GtLogging.Registry
import GtLogging.Threads
import GtLogging.Delivery
import GtLogging.UniqueIds
import GtLogging.OnceRace
import GtLogging.Value
import GtLogging.Layout
import GtLogging.Suppressed
import GtLogging.StateSaver
import GtLogging.Rendering
import GtLogging.Gating
import GtLogging.Compositional
import GtLogging.Filter
import GtLogging.RegistryMap
import GtLogging.SizeAccounting
import GtLogging.Scan
import GtLogging.Substitution
import GtLogging.Pieces
import GtLogging.BackupRange
import GtLogging.BackupCap
import GtLogging.Ownership
import GtLogging.SharedStrategy
import GtLogging.Lib.Slots
import GtLogging.Lib.PrefixCodec
import GtLogging.Lib.Merge
import GtLogging.Lib.Monitor
import GtLogging.Endurance
import GtLogging.Acceptance
import GtLogging.LineReader
import GtLogging.ReadBack
import GtLogging.Linearization
import GtLogging.Mutexes
import GtLogging.Atomicity
import GtLogging.Progress
import GtLogging.Macros
import GtLogging.Sinks
import GtLogging.System
import GtLogging.SystemLogs
import GtLogging.Console
import GtLogging.LockedSystem
import GtLogging.Budget
import GtLogging.Programs
import GtLogging.Lifetime
