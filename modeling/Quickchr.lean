import Quickchr.Lib.Transition
import Quickchr.Lib.TopLog
import Quickchr.Lib.Text
import Quickchr.Lib.Record
import Quickchr.Lib.Slots
import Quickchr.Lib.Retry
import Quickchr.Lib.Json
import Quickchr.Lib.Drain
import Quickchr.Lib.Polling
import Quickchr.Lib.OptionList
import Quickchr.Lib.FileTree
import Quickchr.Lib.ShellWords
import Quickchr.Lib.Utf8
import Quickchr.Lock.Records
import Quickchr.Lock.Protocol
import Quickchr.Lock.Invariant
import Quickchr.Lock.Preservation
import Quickchr.Lock.Steps
import Quickchr.Lock.Exclusion
import Quickchr.Lock.Release
import Quickchr.Lock.Progress
import Quickchr.EntryLock
import Quickchr.DeviceMode
import Quickchr.MachineState
import Quickchr.Names
import Quickchr.SocketRegistry
import Quickchr.SocketMembers
import Quickchr.ProvisioningWindow
import Quickchr.DeviceModeRecord
import Quickchr.Flags
import Quickchr.RecoveryRoute
import Quickchr.Qga
import Quickchr.Provisioning
import Quickchr.Satisfaction
import Quickchr.RepeatedStart
import Quickchr.ConcurrentStart
import Quickchr.Lifecycle
import Quickchr.StoppedRecords
import Quickchr.FirstBootRollback
import Quickchr.RecordRefresh
import Quickchr.NamedLinks
import Quickchr.LinkMembers
import Quickchr.PortBlocks
import Quickchr.Allocation
import Quickchr.AllocationLocks
import Quickchr.AllocationView
import Quickchr.PortAllocation
import Quickchr.ExplicitPorts
import Quickchr.PortMaps
import Quickchr.NetworkResolution
import Quickchr.RegistryCache
import Quickchr.LinkPorts
import Quickchr.Shutdown
import Quickchr.Versions
import Quickchr.Download
import Quickchr.DownloadFiles
import Quickchr.DownloadPolicy
import Quickchr.Zip
import Quickchr.RestDelivery
import Quickchr.Console
import Quickchr.Accounts
import Quickchr.Disks
import Quickchr.ExtraDisks
import Quickchr.FactoryReset
import Quickchr.QemuArgs
import Quickchr.Credentials
import Quickchr.MachineFiles
import Quickchr.MachineDirectory
import Quickchr.CacheNames
import Quickchr.ManagedNames
import Quickchr.Cache
import Quickchr.CacheInventory
import Quickchr.CachePolicy
import Quickchr.CachePins
import Quickchr.StorageAdmission
import Quickchr.IntactCache
import Quickchr.StorageBudget
import Quickchr.CachedInputs
import Quickchr.InputSurvival
import Quickchr.RestBody
import Quickchr.Lib.Base64
import Quickchr.Auth
import Quickchr.QgaFiles
import Quickchr.Lib.Number
import Quickchr.ForwardSpec
import Quickchr.NetworkSpecifiers
import Quickchr.ApiLogin
import Quickchr.QgaSync
import Quickchr.Lib.JsonText
import Quickchr.GuestSnapshot
import Quickchr.ConsoleOutput
import Quickchr.Settings
import Quickchr.SettingsEdits
import Quickchr.CommandLine
import Quickchr.NoProxy
import Quickchr.LegLedger
import Quickchr.VersionOrder
import Quickchr.BlockSearch
import Quickchr.MacAssignment
import Quickchr.DeviceModeChange
import Quickchr.Lib.Streak
import Quickchr.BootWait
import Quickchr.PackageReboot
import Quickchr.DeviceModeUpdate
import Quickchr.Monitor
import Quickchr.CheckRuns
import Quickchr.LegRuns
import Quickchr.Lib.EditDistance
import Quickchr.FlagSuggestions
import Quickchr.ConsoleLogin
import Quickchr.PackageCache
import Quickchr.Lib.Newest
import Quickchr.FailureReports
import Quickchr.Lib.ShellScript
import Quickchr.Handoff
import Quickchr.Descriptor
import Quickchr.License
import Quickchr.Lib.Lines
import Quickchr.Changelog
import Quickchr.Releases
