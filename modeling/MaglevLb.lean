import MaglevLb.EventRun
import MaglevLb.IndexedLists
import MaglevLb.IntrusiveChain
import MaglevLb.SlabPool
import MaglevLb.Station
import MaglevLb.SlidingWindow
import MaglevLb.LineReader
import MaglevLb.Occupancy
import MaglevLb.Bytes
import MaglevLb.OnesComplement
import MaglevLb.FullCycle
import MaglevLb.PacketFormat
import MaglevLb.InternetChecksum
import MaglevLb.Maglev
import MaglevLb.SlotScan
import MaglevLb.BackendManager
import MaglevLb.StatsRegistry
import MaglevLb.Conntrack
import MaglevLb.ConntrackRefinement
import MaglevLb.Datapath
import MaglevLb.FlowAffinity
import MaglevLb.BackendIds
import MaglevLb.TableFill
import MaglevLb.SnapshotFreshness
import MaglevLb.PacketAccounting
import MaglevLb.HealthChecker
import MaglevLb.LoadBalancer
import MaglevLb.Draining
import MaglevLb.Ownership
import MaglevLb.Reclamation
import MaglevLb.Teardown
import MaglevLb.Shutdown
import MaglevLb.StartUp
import MaglevLb.TableDeterminism
import MaglevLb.CommandLine
import MaglevLb.InstanceAgreement
import MaglevLb.PinStability
import MaglevLb.DsrForwarding
import MaglevLb.FlowGauges
import MaglevLb.Children
import MaglevLb.OrderedDict
import MaglevLb.Slots
import MaglevLb.Reconcile
import MaglevLb.SlotMoves
import MaglevLb.SlotViews
import MaglevLb.SlotLifecycle
import MaglevLb.DrainBookkeeping
import MaglevLb.PartitionFaults
import MaglevLb.SlotOwnership
import MaglevLb.FirstFit
import MaglevLb.SlotMemory
import MaglevLb.SingleResponder
import MaglevLb.SlotCommands
import MaglevLb.UndrainSafety
import MaglevLb.SlotProgress
import MaglevLb.GracefulRemoval
import MaglevLb.SlotRevival
import MaglevLb.StillStep
import MaglevLb.SteadyStep
import MaglevLb.Idempotence
import MaglevLb.CLibrary
import MaglevLb.AdminPipe
import MaglevLb.AdminFraming
import MaglevLb.AdminCommand
import MaglevLb.LbRestart
import MaglevLb.LineText
import MaglevLb.MetricsText
import MaglevLb.MetricsReader
import MaglevLb.MetricsRoundTrip
import MaglevLb.PrimeTest
import MaglevLb.FillCursor
import MaglevLb.PlainFill
import MaglevLb.TableBalance
import MaglevLb.ConntrackMap
import MaglevLb.ConntrackCreate
import MaglevLb.ReaperCoverage
import MaglevLb.PacketReads
import MaglevLb.DatagramKey
import MaglevLb.Fragments
import MaglevLb.HealthHysteresis
import MaglevLb.ProbeRound
import MaglevLb.ProbeResults
import MaglevLb.ClientConvergence
import MaglevLb.Schema
import MaglevLb.DesiredLanguage
import MaglevLb.ActionSchema
import MaglevLb.ServiceServer
import MaglevLb.WireProtocol
import MaglevLb.RequestSlots
import MaglevLb.ServerStats
import MaglevLb.WireText
import MaglevLb.ClientConn
import MaglevLb.RequestLedger
import MaglevLb.RequestReply
import MaglevLb.ConnPool
import MaglevLb.LoadClient
import MaglevLb.ClientAccounts
import MaglevLb.DrainedFlows
import MaglevLb.Streams
import MaglevLb.ControlCommands
import MaglevLb.ControlChannel
import MaglevLb.Snapshot
import MaglevLb.HttpApi
import MaglevLb.BridgeServer
import MaglevLb.AutoPause
import MaglevLb.RestartTasks
import MaglevLb.Rates
import MaglevLb.Windows
import MaglevLb.OrderStatistic
import MaglevLb.Percentiles
