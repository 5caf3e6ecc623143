import DartUdp.Lib.Machine
import DartUdp.Lib.Heap
import DartUdp.Lib.Prog
import DartUdp.Lib.Panic
import DartUdp.Lib.Replays
import DartUdp.Lib.SlotMap
import DartUdp.Lib.Dll
import DartUdp.Lib.Refine
import DartUdp.Lib.Bytes
import DartUdp.Lib.Fs
import DartUdp.Lib.MapSum
import DartUdp.Lib.Tiling
import DartUdp.Lib.Bitmap
import DartUdp.Lib.Codec
import DartUdp.Lib.Queue
import DartUdp.Lib.Runs
import DartUdp.TimeWheel.Config
import DartUdp.TimeWheel.Wheel
import DartUdp.TimeWheel.TimerMap
import DartUdp.Transfer.Types
import DartUdp.Storage.Record
import DartUdp.Storage.Storage
import DartUdp.Storage.Complete
import DartUdp.Proofs.StorageRecord
import DartUdp.Proofs.StorageRecover
import DartUdp.Proofs.StoragePaths
import DartUdp.Proofs.StorageComplete
import DartUdp.Proofs.StorageIntegrity
import DartUdp.Proofs.StorageCrash
import DartUdp.Proofs.WheelHeap
import DartUdp.Proofs.WheelLists
import DartUdp.Proofs.WheelPlace
import DartUdp.Proofs.WheelAdvance
import DartUdp.Proofs.WheelRefines
import DartUdp.Proofs.WheelTrace
import DartUdp.Proofs.WheelOrder
import DartUdp.Proofs.WheelIntact
import DartUdp.Proofs.WheelDeadline
import DartUdp.Proofs.WheelExpiry
import DartUdp.Session.Message
import DartUdp.Session.Manifest
import DartUdp.Session.Session
import DartUdp.Session.Run
import DartUdp.Session.Panics
import DartUdp.Session.Stream
import DartUdp.Session.Stored
import DartUdp.Proofs.SessionEdits
import DartUdp.Proofs.SessionConsent
import DartUdp.Proofs.SessionArith
import DartUdp.Proofs.SessionTerminal
import DartUdp.Proofs.SessionAtomic
import DartUdp.Proofs.SessionRedelivery
import DartUdp.Proofs.SessionChunks
import DartUdp.Proofs.SessionDurable
import DartUdp.Proofs.SessionTracks
import DartUdp.Proofs.SessionResume
import DartUdp.Udp.Packet
import DartUdp.Udp.Wire
import DartUdp.Udp.Crypto
import DartUdp.Udp.Codec
import DartUdp.Protocol.Types
import DartUdp.Protocol.Message
import DartUdp.Protocol.Codec
import DartUdp.Server.Rendezvous
import DartUdp.Server.Quota
import DartUdp.Server.Handlers
import DartUdp.Core.Config
import DartUdp.Core.Timers
import DartUdp.Core.Streams
import DartUdp.Core.Recovery
import DartUdp.Core.Connection
import DartUdp.Core.Run
import DartUdp.Core.Net
import DartUdp.Proofs.ConnView
import DartUdp.Proofs.ConnEdits
import DartUdp.Proofs.Reassembly
import DartUdp.Proofs.FinalSize
import DartUdp.Proofs.ConnWindows
import DartUdp.Proofs.AckRanges
import DartUdp.Proofs.ConnOnce
import DartUdp.Proofs.ConnAcks
import DartUdp.Proofs.ConnReopen
import DartUdp.Lib.Lockstep
import DartUdp.Lib.Extents
import DartUdp.Proofs.ConnStages
import DartUdp.Proofs.ConnReceipts
import DartUdp.Proofs.ConnNumbers
import DartUdp.Proofs.ConnKeys
import DartUdp.Proofs.ConnHello
import DartUdp.Proofs.ConnHalfClose
import DartUdp.Proofs.ConnLimit
import DartUdp.Lib.Alarms
import DartUdp.Proofs.ConnAlarms
import DartUdp.Proofs.ConnClock
import DartUdp.Proofs.ConnSlots
import DartUdp.Proofs.ConnClosing
import DartUdp.Proofs.ConnHeld
import DartUdp.Proofs.ConnFrames
import DartUdp.Proofs.NetHandshake
import DartUdp.Proofs.NetAnswers
import DartUdp.Proofs.ConnSend
import DartUdp.Proofs.ConnOffsets
import DartUdp.Proofs.ConnTimers
import DartUdp.Proofs.ConnLedger
import DartUdp.Proofs.ConnLife
import DartUdp.Proofs.ConnLifecycle
import DartUdp.Proofs.ConnQuiet
import DartUdp.Proofs.ConnRecovery
import DartUdp.Proofs.CodecFrames
import DartUdp.Proofs.CodecPackets
import DartUdp.Proofs.Replay
import DartUdp.Proofs.CodecSealed
import DartUdp.Proofs.ControlFields
import DartUdp.Proofs.ControlCodec
import DartUdp.Proofs.ControlMessages
import DartUdp.Proofs.ServerSections
import DartUdp.Proofs.ServerSteps
import DartUdp.Proofs.ServerTickets
import DartUdp.Proofs.ServerOrder
import DartUdp.Proofs.ServerHandlers
import DartUdp.Proofs.ServerLateJoin
import DartUdp.Proofs.ServerQuota
import DartUdp.Server.Handlers
import DartUdp.Proofs.StorageReach
import DartUdp.Proofs.StorageFormat
import DartUdp.Storage.Asserted
import DartUdp.Proofs.StorageWritten
import DartUdp.Client.Resume
import DartUdp.Proofs.ClientResume
import DartUdp.Udp.Retry
import DartUdp.Proofs.RetryCookie
import DartUdp.Proofs.ManifestDigest
import DartUdp.Client.ManifestFiles
import DartUdp.Proofs.ResumeSources
import DartUdp.Proofs.SourceWalks
import DartUdp.Proofs.SessionMoves
import DartUdp.Proofs.SessionSchedule
import DartUdp.Proofs.SessionCheckpoints
import DartUdp.Proofs.SessionAnnounce
import DartUdp.Storage.Methods
import DartUdp.Proofs.StorageFootprint
import DartUdp.Proofs.StorageEnds
import DartUdp.Proofs.StoragePartials
import DartUdp.Proofs.StorageFiled
import DartUdp.Proofs.StorageServed
import DartUdp.Proofs.StorageClobber
import DartUdp.Proofs.ManifestInstall
import DartUdp.Lib.Cyclic
import DartUdp.Proofs.ChecksumBursts
import DartUdp.Lib.BitString
import DartUdp.Proofs.PairingEntropy
import DartUdp.Proofs.ConnSealed
import DartUdp.Proofs.ConnCredit
import DartUdp.Proofs.NetCredit
import DartUdp.Proofs.ConnDelivery
import DartUdp.Proofs.NetDelivery
import DartUdp.Lib.Totals
import DartUdp.Endpoint.Types
import DartUdp.Endpoint.EventLoop
import DartUdp.Proofs.EndpointSteps
import DartUdp.Proofs.EndpointTurns
import DartUdp.Proofs.EndpointAnswers
import DartUdp.Proofs.EndpointHosts
import DartUdp.Proofs.EndpointReplies
import DartUdp.Proofs.ConnWakes
import DartUdp.Proofs.EndpointRounds
import DartUdp.Proofs.EndpointSettled
import DartUdp.Proofs.PeersRuns
