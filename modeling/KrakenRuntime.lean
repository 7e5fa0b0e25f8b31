import KrakenRuntime.Lib.Runs
import KrakenRuntime.Lib.Dict
import KrakenRuntime.Lib.Ledger
import KrakenRuntime.Lib.Threads
import KrakenRuntime.Lib.CText
import KrakenRuntime.Lib.Json
import KrakenRuntime.NpuProxy.GateCore
import KrakenRuntime.NpuProxy.ContractLedger
import KrakenRuntime.NpuProxy.WorkConserving
import KrakenRuntime.NpuProxy.Proxy
import KrakenRuntime.NpuProxy.Replies
import KrakenRuntime.Gating.Gate
import KrakenRuntime.Gating.Invariants
import KrakenRuntime.Gating.MutualExclusion
import KrakenRuntime.Gating.Rounds
import KrakenRuntime.Gating.Progress
import KrakenRuntime.Gating.Profiling
import KrakenRuntime.Libbless.TimeGate
import KrakenRuntime.Libbless.TimeCredit
import KrakenRuntime.Libbless.KernelCredit
import KrakenRuntime.Hooks.KillerPolicy
import KrakenRuntime.Hooks.Classification
import KrakenRuntime.Lib.Int64
import KrakenRuntime.Libbless.MemoryLedger
import KrakenRuntime.Resource.VirtualMem
import KrakenRuntime.Libbless.RideAlong
import KrakenRuntime.Gating.Budget
import KrakenRuntime.Gating.GateTruth
import KrakenRuntime.Gating.PolicyReload
import KrakenRuntime.Libbless.MemoryQuota
import KrakenRuntime.NpuProxy.CommandContract
import KrakenRuntime.Libbless.LaunchPath
import KrakenRuntime.Libbless.Routing
import KrakenRuntime.Libbless.QueueLengths
import KrakenRuntime.Libbless.QmdMode
import KrakenRuntime.Gating.RoundNumbers
import KrakenRuntime.Lib.Spread
import KrakenRuntime.NpuProxy.DeficitFairness
import KrakenRuntime.NpuProxy.Custody
import KrakenRuntime.Lib.Wire
import KrakenRuntime.NpuProxy.Framing
import KrakenRuntime.Shm.ShmClient
import KrakenRuntime.Shm.TenantSlots
import KrakenRuntime.Shm.OvercommitTotals
import KrakenRuntime.NpuProxy.Client
import KrakenRuntime.NpuProxy.ClientPermits
import KrakenRuntime.NpuProxy.Registry
import KrakenRuntime.Hooks.IterationIndex
import KrakenRuntime.Hooks.SymbolLookup
import KrakenRuntime.Libbless.BackgroundWait
import KrakenRuntime.Libbless.PeakMemory
import KrakenRuntime.Libbless.FailedCalls
import KrakenRuntime.Libbless.QmdMask
import KrakenRuntime.Libbless.QmdShare
import KrakenRuntime.NpuProxy.Connection
import KrakenRuntime.Lib.Rotation
import KrakenRuntime.NpuProxy.RideRounds
import KrakenRuntime.Hooks.PolicyRoundTrip
import KrakenRuntime.Hooks.ParserSafety
import KrakenRuntime.Lib.Decimal
import KrakenRuntime.Lib.Dispatch
import KrakenRuntime.Libbless.ControlText
import KrakenRuntime.Libbless.ControlServer
import KrakenRuntime.NpuProxy.ProportionalShare
import KrakenRuntime.Libbless.Holds
import KrakenRuntime.Libbless.Squad
import KrakenRuntime.Libbless.GateProgress
import KrakenRuntime.Lib.Once
import KrakenRuntime.Libbless.Initialisation
import KrakenRuntime.Lib.PyText
import KrakenRuntime.NpuProxy.CtrlText
import KrakenRuntime.NpuProxy.ReplyFraming
import KrakenRuntime.Libbless.ContextStack
import KrakenRuntime.Libbless.Measurements
import KrakenRuntime.Gating.WallClock
