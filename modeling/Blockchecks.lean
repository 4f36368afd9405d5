import Blockchecks.Runs
import Blockchecks.BridgeIpc
import Blockchecks.BridgeSteps
import Blockchecks.BridgeVerdict
import Blockchecks.BridgeFence
import Blockchecks.OrderedDict
import Blockchecks.Heapq
import Blockchecks.StrategyText
import Blockchecks.ScanWeights
import Blockchecks.TcpFanout
import Blockchecks.AdaptiveQueue
import Blockchecks.QueueInvariant
import Blockchecks.QueuePop
import Blockchecks.QueueMark
import Blockchecks.QueueRuns
import Blockchecks.QueueOnce
import Blockchecks.Results
import Blockchecks.BatchScheduler
import Blockchecks.BridgeWorkerPool
import Blockchecks.Custody
import Blockchecks.AdaptiveRunner
import Blockchecks.RunnerSteps
import Blockchecks.RunnerComplete
import Blockchecks.RunnerClaims
import Blockchecks.RunnerStop
import Blockchecks.RunnerIsolation
import Blockchecks.QueueBridge
import Blockchecks.QueueBridgeSteps
import Blockchecks.QueueBridgeRuns
import Blockchecks.LuaConf
import Blockchecks.BatchService
import Blockchecks.BatchPairing
import Blockchecks.BatchFailure
import Blockchecks.Regex
import Blockchecks.FailPhases
import Blockchecks.Quarantine
import Blockchecks.QuarantineRuns
import Blockchecks.BatchInfra
import Blockchecks.RunStore
import Blockchecks.RunLog
import Blockchecks.ResumeSkip
import Blockchecks.ProbeLogger
import Blockchecks.BackendRace
import Blockchecks.CurlProbe
import Blockchecks.ProbeChecks
import Blockchecks.QueueVerdict
import Blockchecks.QuarantineReplay
import Blockchecks.ResumePhases
import Blockchecks.ResumeModes
import Blockchecks.StoreTables
import Blockchecks.StoreOrder
import Blockchecks.StoreClose
import Blockchecks.StoreFinish
import Blockchecks.StoreCloseRuns
import Blockchecks.RunLockRuns
import Blockchecks.RunLockAlone
import Blockchecks.BatchConfBuild
import Blockchecks.ConfEscape
import Blockchecks.FindStrategyRuns
import Blockchecks.WarmPoolRuns
import Blockchecks.CurlWorkerRuns
import Blockchecks.FamilyResume
import Blockchecks.CampaignRuns
import Blockchecks.ExportFilter
import Blockchecks.HarvestBatch
import Blockchecks.RouterConfig
import Blockchecks.CommonExport
import Blockchecks.ExportNumbers
import Blockchecks.BlobScan
import Blockchecks.KeeneticConf
import Blockchecks.KeeneticClosed
import Blockchecks.IpForward
import Blockchecks.PairSchedule
import Blockchecks.PairRun
import Blockchecks.PairCover
import Blockchecks.BlobConf
import Blockchecks.ProbeService
import Blockchecks.MemoryMonitor
import Blockchecks.DomainDeny
import Blockchecks.DnsSecure
import Blockchecks.DohTrust
import Blockchecks.StoreAgree
import Blockchecks.PresetTrip
import Blockchecks.GcSafety
import Blockchecks.BatchManifest
import Blockchecks.HarvestCores
import Blockchecks.SeedPass
import Blockchecks.PassMigration
import Blockchecks.WeightLaws
import Blockchecks.FanoutBatches
import Blockchecks.GreedyPop
import Blockchecks.DnsTrip
import Blockchecks.TtlExport
import Blockchecks.TriagePrune
import Blockchecks.WallBudget
import Blockchecks.ByedpiLoss
import Blockchecks.DnsCandidates
import Blockchecks.TriageRecord
import Blockchecks.TriageTrip
import Blockchecks.NsFirewall
import Blockchecks.DoubleQuotes
import Blockchecks.ShellQuote
import Blockchecks.SqlLogic
import Blockchecks.DbPrune
import Blockchecks.HostsPins
import Blockchecks.HostsTrip
import Blockchecks.DomainSpelling
import Blockchecks.DomainForms
import Blockchecks.DenylistAppend
import Blockchecks.Utf8Replace
import Blockchecks.LineSplit
import Blockchecks.LogTail
import Blockchecks.LogCuts
import Blockchecks.Toml
import Blockchecks.TomlWrite
import Blockchecks.TomlTables
import Blockchecks.TriageToml
import Blockchecks.TriageTomlLines
import Blockchecks.TriageTomlText
import Blockchecks.TriageTomlTrip
import Blockchecks.BatchGroups
import Blockchecks.LineReader
import Blockchecks.Columns
import Blockchecks.RoundRobin
import Blockchecks.FieldCodes
import Blockchecks.FamilyAxes
import Blockchecks.FamilyExpanders
import Blockchecks.StandardGenerator
import Blockchecks.FamilyCodes
import Blockchecks.FamilyFormats
import Blockchecks.FamilyLabels
import Blockchecks.FamilyForms
import Blockchecks.FamilyRows
import Blockchecks.GeneratedLabels
import Blockchecks.LabelIdentity
import Blockchecks.ResumedCampaign
import Blockchecks.EventBus
import Blockchecks.ProbeServer
import Blockchecks.DnsPinService
import Blockchecks.Preflight
import Blockchecks.LiveEvents
import Blockchecks.Daemons
