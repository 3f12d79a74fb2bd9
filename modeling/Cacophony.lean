import Cacophony.Runs
import Cacophony.Progs
import Cacophony.Panics
import Cacophony.Loops
import Cacophony.Interleave
import Cacophony.Chunks
import Cacophony.Gateway
import Cacophony.Downgrade
import Cacophony.Coordinator
import Cacophony.PumpSpec
import Cacophony.Activation
import Cacophony.PendingTransition
import Cacophony.PumpProgress
import Cacophony.Deliveries
import Cacophony.Leb128
import Cacophony.Leb128Words
import Cacophony.AnnexB
import Cacophony.Gcm
import Cacophony.Frame
import Cacophony.FrameCodecs
import Cacophony.FrameRoundTrip
import Cacophony.NalUnits
import Cacophony.FrameSafety
import Cacophony.NaluSpans
import Cacophony.SliceHeaders
import Cacophony.Ratchet
import Cacophony.SenderNonces
import Cacophony.SealedFrames
import Cacophony.StartCodes
import Cacophony.Receiver
import Cacophony.Replay
import Cacophony.Generations
import Cacophony.KeyLifetime
import Cacophony.UserDecryptor
import Cacophony.Channel
import Cacophony.Authenticity
import Cacophony.RatchetRetention
import Cacophony.Identity
import Cacophony.Mls
import Cacophony.MlsPolicy
import Cacophony.DaveSession
import Cacophony.PlaintextWindow
import Cacophony.SessionStatus
import Cacophony.CommitPolicy
import Cacophony.ProposalsAtomic
import Cacophony.PendingMedia
import Cacophony.PlaintextGrace
import Cacophony.Arcs
import Cacophony.Transport
import Cacophony.TransportNonces
import Cacophony.Rtpsize
import Cacophony.RtpsizeRoundTrip
import Cacophony.DatagramSafety
import Cacophony.PayloadSafety
import Cacophony.RtpPayload
import Cacophony.Vp9Descriptors
import Cacophony.Assembler
import Cacophony.Fragments
import Cacophony.Provenance
import Cacophony.FramePackets
import Cacophony.PayloadRoundTrip
import Cacophony.EncryptedObus
import Cacophony.ObuUnits
import Cacophony.H26xPackets
import Cacophony.H26xRoundTrip
import Cacophony.UnitPackets
import Cacophony.Reorder
import Cacophony.ReorderWindow
import Cacophony.ReorderRuns
import Cacophony.StableOrder
import Cacophony.Deadlines
import Cacophony.BucketQueue
import Cacophony.DeadlineRuns
import Cacophony.Streams
import Cacophony.StreamRuns
import Cacophony.Blocks
import Cacophony.ReadyQueue
import Cacophony.Schedules
import Cacophony.StreamKeys
import Cacophony.WakeUps
import Cacophony.Pipeline
import Cacophony.WakeArm
import Cacophony.GatewayEvents
import Cacophony.Driver
import Cacophony.Connecting
import Cacophony.Disconnects
import Cacophony.VideoTimestamps
import Cacophony.TimestampDrift
import Cacophony.InOrder
import Cacophony.FrameGroups
import Cacophony.FrameLoss
import Cacophony.Reordering
import Cacophony.Stats
import Cacophony.SortedLists
import Cacophony.SlidingWindows
import Cacophony.Playout
import Cacophony.PlayoutRuns
import Cacophony.PlayoutWaits
import Cacophony.PlayoutHandles
import Cacophony.PlayoutCommands
import Cacophony.PlayoutOwners
import Cacophony.OpusPackets
import Cacophony.OpusFraming
import Cacophony.OpusSending
import Cacophony.Pcm
import Cacophony.PcmStreaming
import Cacophony.DynamicPcm
