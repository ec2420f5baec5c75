import AsyncPipelines.Lib.Runs
import AsyncPipelines.Lib.Potential
import AsyncPipelines.Lib.Count
import AsyncPipelines.Lib.Conveyor
import AsyncPipelines.Lib.Meter
import AsyncPipelines.Lib.Windows
import AsyncPipelines.Lib.Program
import AsyncPipelines.Lib.Interference
import AsyncPipelines.Lib.ObjectStore
import AsyncPipelines.Lib.Vault
import AsyncPipelines.Lib.Posix
import AsyncPipelines.Lib.PosixCalls
import AsyncPipelines.Lib.Realpath
import AsyncPipelines.Lib.FloatingPoint
import AsyncPipelines.Asyncio.Task
import AsyncPipelines.Asyncio.TaskGroup
import AsyncPipelines.Asyncio.TaskGroupChecks
import AsyncPipelines.Asyncio.Semaphore
import AsyncPipelines.Asyncio.Queue
import AsyncPipelines.Core.Errors
import AsyncPipelines.Core.ErrorsChecks
import AsyncPipelines.Core.CancelProbe
import AsyncPipelines.Core.GroupCount
import AsyncPipelines.Core.Session
import AsyncPipelines.Core.SessionAlone
import AsyncPipelines.Core.Call
import AsyncPipelines.Core.CallChecks
import AsyncPipelines.Core.History
import AsyncPipelines.Core.Fanout
import AsyncPipelines.Core.FanoutChecks
import AsyncPipelines.Core.FanoutRuns
import AsyncPipelines.Core.FanoutSlots
import AsyncPipelines.Core.FanoutOrder
import AsyncPipelines.Core.Process
import AsyncPipelines.Core.Stream
import AsyncPipelines.Core.StreamChecks
import AsyncPipelines.Core.StreamInv
import AsyncPipelines.Core.StreamQueue
import AsyncPipelines.Core.StreamFlow
import AsyncPipelines.Core.StreamProgress
import AsyncPipelines.Core.StreamCalls
import AsyncPipelines.Core.StreamMeter
import AsyncPipelines.Core.StreamRuns
import AsyncPipelines.Core.StreamMetrics
import AsyncPipelines.Core.Policy
import AsyncPipelines.ToolDispatch
import AsyncPipelines.EntryPoints
import AsyncPipelines.Bounds
import AsyncPipelines.Core.Scripted
import AsyncPipelines.Core.ScriptedRuns
import AsyncPipelines.Core.FanoutProgress
import AsyncPipelines.Core.FanoutErrors
import AsyncPipelines.ToolErrors
import AsyncPipelines.ToolArguments
import AsyncPipelines.Benchmark.Batches
import AsyncPipelines.Benchmark.Alignment
import AsyncPipelines.Benchmark.Pipelines
import AsyncPipelines.Benchmark.Records
import AsyncPipelines.IoUtils.TempNames
import AsyncPipelines.IoUtils.AtomicWrite
import AsyncPipelines.IoUtils.AtomicWriteChecks
import AsyncPipelines.IoUtils.AtomicWriteFaults
import AsyncPipelines.IoUtils.Parents
import AsyncPipelines.IoUtils.Preflight
import AsyncPipelines.IoUtils.OutputPair
import AsyncPipelines.IoUtils.ConcurrentWrites
import AsyncPipelines.IoUtils.Siblings
