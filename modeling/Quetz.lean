import Quetz.Lib.ByteMemory
import Quetz.WindowCache
import Quetz.CacheInvariant
import Quetz.CacheTransparency
import Quetz.CacheDirty
import Quetz.CacheBank
import Quetz.CachePublication
import Quetz.AcceleratorPort
import Quetz.AsyncOffload
import Quetz.GpuDevice
import Quetz.GpuDma
import Quetz.Mailbox
import Quetz.CacheService
import Quetz.GpuBlocking
import Quetz.IrqMailbox
import Quetz.MmioAnswers
import Quetz.MmioRun
import Quetz.Pipeline
import Quetz.PipelineIssue
import Quetz.PipelineTraffic
import Quetz.DisabledCache
import Quetz.PluginTrace
import Quetz.CpuTick
import Quetz.DoorbellLedger
import Quetz.StreamDevice
import Quetz.SinkDevice
import Quetz.PrimaryHold
import Quetz.CacheOps
import Quetz.NativeRouting
import Quetz.Deadline
import Quetz.PipelineBound
import Quetz.StoreCapture
import Quetz.WindowByteOrder
import Quetz.EventLog
import Quetz.GuestExit
import Quetz.DoorbellOrder
import Quetz.DoorbellFlush
import Quetz.NativeRegions
import Quetz.CacheSafety
import Quetz.NativeService
import Quetz.CacheLock
import Quetz.CacheRejection
import Quetz.IssueWindows
import Quetz.IssueLimits
import Quetz.WindowRange
import Quetz.DelayedNops
import Quetz.KernelBounds
import Quetz.LaunchCommand
import Quetz.UserApertures
import Quetz.UserFault
import Quetz.RiscvMmio
import Quetz.M68kMmio
import Quetz.PluginInstall
import Quetz.LaunchApertures
import Quetz.PipelineCounts
import Quetz.DecodedTrace
import Quetz.RegionLog
import Quetz.RegionOutput
import Quetz.PipelineProgress
import Quetz.GuestCompletion
import Quetz.IpcClients
import Quetz.MmioBridge
import Quetz.QemuChild
