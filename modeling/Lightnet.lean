import Lightnet.Relay.LinkArq
import Lightnet.Relay.Fabric
import Lightnet.Library.Propagation
import Lightnet.Relay.LoopFreedom
import Lightnet.Relay.IndexUniqueness
import Lightnet.Animation.Color
import Lightnet.Animation.Player
import Lightnet.Animation.Scheduler
import Lightnet.Animation.GroupStart
import Lightnet.Json.SimpleJson
import Lightnet.Library.OracleProgram
import Lightnet.Library.SinglePrecision
import Lightnet.Json.Decimal
import Lightnet.Json.Parse
import Lightnet.Scene.Selector
import Lightnet.Scene.Record
import Lightnet.Scene.Parser
import Lightnet.Json.Progress
import Lightnet.Json.Consumes
import Lightnet.Scene.ParserSafety
import Lightnet.Storage.Database
import Lightnet.Storage.Stores
import Lightnet.Storage.Records
import Lightnet.Storage.Scans
import Lightnet.Storage.Writes
import Lightnet.Storage.PaletteStore
import Lightnet.Storage.SceneStore
import Lightnet.Storage.KeyedRuns
import Lightnet.Storage.SingleRecordStore
import Lightnet.Storage.Durability
import Lightnet.Storage.CursorDatabase
import Lightnet.Storage.CursorLoops
import Lightnet.Storage.Compaction
import Lightnet.Storage.RecordMap
import Lightnet.Animation.PlayerRun
import Lightnet.Animation.LoopPhase
import Lightnet.Animation.Settling
import Lightnet.Animation.PacketSettling
import Lightnet.Animation.ScheduleIndependence
import Lightnet.Mirror.PacketMirror
import Lightnet.Mirror.Coalescing
import Lightnet.Mirror.PanelView
import Lightnet.Mirror.PacketOrder
import Lightnet.Mirror.Snapshot
import Lightnet.Mirror.Replay
import Lightnet.Relay.HopArq
import Lightnet.Ota.Bootloader
import Lightnet.Ota.PageTransfer
import Lightnet.Library.DepthFirst
import Lightnet.Library.RootedTree
import Lightnet.Json.Grammar
import Lightnet.Topology.PanelGraph
import Lightnet.Topology.TreeTopology
import Lightnet.Topology.Search
import Lightnet.Topology.CanonicalOrder
import Lightnet.Scene.SelectorGrammar
import Lightnet.Scene.SelectorRun
import Lightnet.Library.Framing
import Lightnet.Relay.PacketFramer
import Lightnet.Relay.EdgeFrameReceiver
import Lightnet.Storage.FailedOperations
import Lightnet.Storage.FailedCompaction
import Lightnet.Relay.TreeConversion
import Lightnet.Scene.Accepted
import Lightnet.Playback.RunnerCompile
import Lightnet.Playback.PanelField
import Lightnet.Playback.RunnerSpawn
import Lightnet.Playback.ScenePlayer
import Lightnet.Playback.SceneTick
import Lightnet.Playback.LayerFrames
import Lightnet.Playback.SpeedScaling
import Lightnet.Playback.PlayerMoves
import Lightnet.Playback.ClockAgreement
import Lightnet.Playback.ClockShift
import Lightnet.Playback.SceneLoading
import Lightnet.Playback.LitPulses
import Lightnet.Playback.GroupPools
import Lightnet.Playback.LoopBarrier
import Lightnet.Queues.MainLoopQueue
import Lightnet.Queues.CircularQueue
import Lightnet.Relay.TrunkFrameReceiver
import Lightnet.Relay.WalkOrder
import Lightnet.Ota.SerialFirmwareReceiver
import Lightnet.Animation.SlotDiscipline
import Lightnet.Ota.BootloaderSafety
import Lightnet.Storage.AlignedGrowth
import Lightnet.Playback.BounceLegs
import Lightnet.Scene.ParseFidelity
import Lightnet.Playback.StartOrder
import Lightnet.Library.BoundedBuffer
import Lightnet.Json.Writing
import Lightnet.Json.Quoting
import Lightnet.Json.ArrayBuilder
import Lightnet.Http.RequestBody
import Lightnet.Scene.Writer
import Lightnet.Http.Capacity
import Lightnet.Json.Document
import Lightnet.Json.SkipExact
import Lightnet.Scene.UnknownKeys
import Lightnet.Json.FindKey
import Lightnet.Json.Cut
import Lightnet.Scene.Truncation
import Lightnet.Json.Reading
import Lightnet.Palette.MemberOrder
import Lightnet.Palette.StoredPalettes
import Lightnet.Palette.UrlName
import Lightnet.Library.CyclicCounter
import Lightnet.Playback.PoolRotation
import Lightnet.Mirror.SnapshotRequests
import Lightnet.Library.CInteger
import Lightnet.Animation.IntegerWidths
import Lightnet.Animation.PaletteSampling
import Lightnet.Playback.PulseEnds
import Lightnet.Animation.SlotPermutation
import Lightnet.Mirror.SnapshotTiling
import Lightnet.Topology.LayoutSafety
import Lightnet.Topology.IndexTables
import Lightnet.Animation.Reaping
import Lightnet.Playback.PulseTimes
import Lightnet.Playback.DropTimes
import Lightnet.Playback.SpawnedSlots
import Lightnet.Library.SharedRing
import Lightnet.Queues.SpscInterleaving
import Lightnet.Queues.ByteRing
import Lightnet.Library.PreorderNumbers
import Lightnet.Relay.IndexOrder
import Lightnet.Relay.Routing
import Lightnet.Relay.Delivery
import Lightnet.Ota.Campaign
import Lightnet.Ota.LaneTransfer
import Lightnet.Ota.LeavesFirst
import Lightnet.Palette.RoundTrip
import Lightnet.Ota.OnTheWire
import Lightnet.Websocket.Commands
import Lightnet.Websocket.CommandQueue
import Lightnet.Mirror.WirePackets
import Lightnet.Mirror.BatchBuffer
import Lightnet.Mirror.MirrorFrames
