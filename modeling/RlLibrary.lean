import RlLibrary.Foundation.Machine
import RlLibrary.Memory.TraceList
import RlLibrary.Memory.Counters
import RlLibrary.Memory.Freeing
import RlLibrary.Memory.Transparency
import RlLibrary.Foundation.ThreadPool
import RlLibrary.Memory.Threads
import RlLibrary.Memory.Attachment
import RlLibrary.Memory.Interleaving
import RlLibrary.Foundation.CString
import RlLibrary.Foundation.Signals
import RlLibrary.Str.Basic
import RlLibrary.Command.Program
import RlLibrary.Command.Attempts
import RlLibrary.Command.Result
import RlLibrary.Command.Children
import RlLibrary.Command.Restoring
import RlLibrary.Time.Server
import RlLibrary.Time.AllOrNothing
import RlLibrary.Time.Splitting
import RlLibrary.Time.Grammar
import RlLibrary.Foundation.Buffer
import RlLibrary.Memory.LockProtocol
import RlLibrary.Str.Editing
import RlLibrary.Str.ScratchBound
import RlLibrary.Foundation.Decimal
import RlLibrary.Foundation.Scan
import RlLibrary.Sys.CpuUsage
import RlLibrary.Sys.CpuRuns
import RlLibrary.Log.Program
import RlLibrary.Log.Descriptors
import RlLibrary.Log.Writing
import RlLibrary.Eth.Probes
import RlLibrary.Eth.Configuration
import RlLibrary.Time.Tracing
import RlLibrary.Eth.Releases
import RlLibrary.Eth.Resolution
import RlLibrary.Str.Leftmost
import RlLibrary.Str.InsertDelete
import RlLibrary.Str.Copying
import RlLibrary.Foundation.Reading
import RlLibrary.Str.Scanning
import RlLibrary.Sys.Temperature
import RlLibrary.Str.AfterChar
import RlLibrary.Sys.CpuRange
import RlLibrary.Sys.CpuLine
import RlLibrary.Foundation.Dirname
import RlLibrary.Sys.ProcPath
import RlLibrary.Sys.ProgramPaths
import RlLibrary.Foundation.Words
import RlLibrary.Eth.FileLines
import RlLibrary.Eth.Dhcp
import RlLibrary.Eth.PlainFiles
import RlLibrary.Foundation.Hexadecimal
import RlLibrary.Eth.Routes
import RlLibrary.Foundation.Numerals
import RlLibrary.Str.Comparing
import RlLibrary.Foundation.Calendar
import RlLibrary.Str.Digits
import RlLibrary.Command.PollBound
import RlLibrary.Time.SettingClock
import RlLibrary.Command.Placement
import RlLibrary.Time.ReceiveBounds
import RlLibrary.Foundation.LinkedList
import RlLibrary.Memory.Report
import RlLibrary.Memory.Sizes
import RlLibrary.Log.LineBounds
import RlLibrary.Foundation.Sections
import RlLibrary.Log.Interleaving
import RlLibrary.Foundation.Chain
import RlLibrary.Memory.Ownership
import RlLibrary.Memory.Hops
import RlLibrary.Time.Strptime
import RlLibrary.Time.DateHeader
import RlLibrary.Eth.Addresses
import RlLibrary.Time.Clock
import RlLibrary.Foundation.Delivery
import RlLibrary.Command.Arrivals
import RlLibrary.Foundation.Lines
import RlLibrary.Memory.Reading
import RlLibrary.Log.Reading
import RlLibrary.Memory.ReportPath
import RlLibrary.Log.Tracing
import RlLibrary.Sys.Tracing
import RlLibrary.Process.Descriptors
import RlLibrary.Str.Session
import RlLibrary.Command.Callers
import RlLibrary.Foundation.GroupedSections
import RlLibrary.Log.Processes
