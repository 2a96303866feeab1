import Wzp.Lib.Bytes
import Wzp.Lib.BitWords
import Wzp.Lib.SerialNumber
import Wzp.Lib.Flood
import Wzp.Proto.Media
import Wzp.Proto.Packet
import Wzp.Proto.Compact
import Wzp.Proto.CompactStream
import Wzp.Proto.CompactSafety
import Wzp.Crypto.Primitives
import Wzp.Crypto.AntiReplay
import Wzp.Crypto.AntiReplayRefinement
import Wzp.Crypto.Session
import Wzp.Crypto.RekeyInterval
import Wzp.Crypto.Call
import Wzp.Crypto.NonceUse
import Wzp.Crypto.RekeyAgreement
import Wzp.Crypto.Delivery
import Wzp.Relay.Rooms
import Wzp.Relay.Federation
import Wzp.Relay.MediaNetwork
import Wzp.Relay.MediaDelivery
import Wzp.Relay.MediaEcho
import Wzp.Relay.MediaCoverage
import Wzp.Relay.Presence
import Wzp.Relay.PresenceNetwork
import Wzp.Relay.PresenceTermination
import Wzp.Lib.KeyedSlots
import Wzp.Relay.PeerLinks
import Wzp.Relay.LocalPresence
import Wzp.Relay.DatagramDedup
import Wzp.Relay.RoomDelivery
import Wzp.Relay.CallRegistry
import Wzp.Relay.SignalLoop
import Wzp.Relay.CallParties
import Wzp.Relay.CallSenders
import Wzp.Relay.SignalConnections
import Wzp.Relay.CallRooms
import Wzp.Relay.CrossRelayCalls
import Wzp.Lib.MirroredTable
import Wzp.Relay.PresenceFeed
import Wzp.Relay.PresenceConvergence
import Wzp.Relay.RemotePresence
import Wzp.Fec.RaptorQ
import Wzp.Lib.BlockLabels
import Wzp.Client.CallEncoder
import Wzp.Client.FecLabels
import Wzp.Proto.Jitter
import Wzp.Relay.BrowserFrames
import Wzp.Client.FecRecovery
import Wzp.Lib.Table
import Wzp.Proto.Quality
import Wzp.Relay.RoomState
import Wzp.Relay.RoomConsistency
import Wzp.Relay.RoomTier
import Wzp.Relay.KeyframeCache
import Wzp.Relay.PliRouting
import Wzp.Proto.Trunk
import Wzp.Relay.Trunk
import Wzp.Relay.TrunkedForwarding
import Wzp.Relay.RoomRaces
import Wzp.Relay.RoomRefinement
import Wzp.Proto.JitterWindow
import Wzp.Proto.JitterOrder
import Wzp.Proto.PlayoutOrder
import Wzp.Client.CallPlayer
import Wzp.Client.CompactCall
import Wzp.Client.DecoderSafety
import Wzp.Client.LossFree
import Wzp.Client.DualPath
import Wzp.Lib.Listing
import Wzp.Client.RelayMap
import Wzp.Client.IceAgent
import Wzp.Desktop.PathAgreement
import Wzp.Desktop.CalleePrivacy
import Wzp.Relay.Authentication
import Wzp.Relay.Pipeline
import Wzp.Desktop.VideoContinuity
import Wzp.Desktop.VideoReferences
import Wzp.Desktop.DredRecovery
import Wzp.Desktop.QualityUpgrade
import Wzp.Desktop.SendLoop
import Wzp.Desktop.SendSafety
import Wzp.Relay.PresenceGossip
import Wzp.Desktop.SignalSupervisor
import Wzp.Lib.RateMeters
import Wzp.Relay.Conformance
import Wzp.Client.SpeechStream
import Wzp.Relay.ConformingSender
import Wzp.Client.DialCandidates
import Wzp.Desktop.CallIsolation
import Wzp.Proto.QualityMoves
import Wzp.Proto.ProfileAgreement
import Wzp.Proto.TierHysteresis
import Wzp.Video.Reassembly
import Wzp.Video.RoomReassembly
import Wzp.Video.H264
import Wzp.Video.H264Loss
import Wzp.Lib.Leb128
import Wzp.Video.Av1Obu
import Wzp.Video.Av1Stream
import Wzp.Video.Nack
import Wzp.Crypto.FailedDecryption
import Wzp.Proto.StatsReset
import Wzp.Proto.PushAgreement
import Wzp.Proto.JitterConservation
import Wzp.Relay.PipelineTermination
import Wzp.Proto.QualityProbes
import Wzp.Video.NackPacing
import Wzp.Video.NackLoop
import Wzp.Video.Av1Parsing
import Wzp.Video.SequenceHeader
import Wzp.Video.AnnexB
import Wzp.Relay.LayerSelection
import Wzp.Relay.TrunkLimits
import Wzp.Lib.Copies
import Wzp.Video.FrameLayout
import Wzp.Video.FrameConversion
import Wzp.Lib.Grids
import Wzp.Video.FrameRoundTrip
import Wzp.Lib.Mailbox
import Wzp.Client.EncoderBookkeeping
import Wzp.Relay.KeyframeStream
import Wzp.Relay.KeyframeReplay
import Wzp.Codec.EchoCanceller
import Wzp.Codec.EchoAlignment
import Wzp.Desktop.CallHistory
import Wzp.Client.StunResponse
import Wzp.Client.PortPrediction
import Wzp.Desktop.LossReports
import Wzp.Codec.AudioCodecs
import Wzp.Codec.ProfileSwitch
import Wzp.Client.ProfileSwitch
import Wzp.Lib.Truncation
import Wzp.Proto.DredTuner
import Wzp.Client.DredAgreement
import Wzp.Relay.VideoScorer
import Wzp.Relay.FrameScores
import Wzp.Lib.Doubles
import Wzp.Lib.Scaling
import Wzp.Video.QualityController
import Wzp.Video.SustainableTargets
import Wzp.Lib.Answers
import Wzp.Native.RingBuffer
import Wzp.Native.BoundedQueue
import Wzp.Codec.Resample
import Wzp.Codec.ResampledBlocks
import Wzp.Client.AudioRing
import Wzp.Client.LossyQueue
import Wzp.Lib.BucketBounds
import Wzp.Relay.RateCap
import Wzp.Relay.ResponsePolicy
import Wzp.Relay.Escalation
import Wzp.Fec.BurstRecovery
import Wzp.Client.NatClassification
import Wzp.Client.SecureTransport
import Wzp.Client.Analyzer
import Wzp.Client.Capture
import Wzp.Client.SilenceSuppression
import Wzp.Relay.KeyAgreement
import Wzp.Lib.Threads
import Wzp.Lib.Records
import Wzp.Web.AudioProcessor
import Wzp.Proto.Session
import Wzp.Lib.Leases
import Wzp.Relay.SessionAccounting
import Wzp.Lib.Deadlines
import Wzp.Desktop.VideoSender
import Wzp.Desktop.VideoRecovery
