import AmbiRTC.BundleRoundTrip
import AmbiRTC.BundleCanonical
import AmbiRTC.ClientRoundTrip
import AmbiRTC.JitterDelivery
import AmbiRTC.JitterSilence
import AmbiRTC.MinusOne
import AmbiRTC.SessionClose
import AmbiRTC.Pacing
import AmbiRTC.LossResilience
import AmbiRTC.UplinkTimeline
import AmbiRTC.SignalingRegistration
import AmbiRTC.SignalingRelay
import AmbiRTC.MixClock
import AmbiRTC.Bridge
import AmbiRTC.Capture
import AmbiRTC.AssemblyLoss
import AmbiRTC.AssemblyConcealment
import AmbiRTC.Recording
import AmbiRTC.PipelineOwnership
import AmbiRTC.DownlinkOrder
import AmbiRTC.SignalingSafety
import AmbiRTC.JitterPointers
import AmbiRTC.RoomLifecycle
import AmbiRTC.RemoteIce
import AmbiRTC.DecoderQueue
import AmbiRTC.DecodeOrder
import AmbiRTC.VadGate
import AmbiRTC.TxBundle
import AmbiRTC.TxConservation
import AmbiRTC.RxSequenceLoss
import AmbiRTC.DownlinkStream
import AmbiRTC.DownlinkTimeline
import AmbiRTC.WorkletPlayback
import AmbiRTC.QueueAccounting
import AmbiRTC.TurnCache
import AmbiRTC.SignalingRooms
import AmbiRTC.DownlinkIntegrity
import AmbiRTC.UplinkPackets
import AmbiRTC.UplinkIntegrity
import AmbiRTC.Conference
import AmbiRTC.ConferenceSafety
import AmbiRTC.Prebuffer
import AmbiRTC.PlayoutFrames
import AmbiRTC.Playout
import AmbiRTC.WorkletLatency
import AmbiRTC.PlayoutSafety
import AmbiRTC.Negotiation
import AmbiRTC.NegotiationSafety
import AmbiRTC.Handshake
import AmbiRTC.NegotiationAnswer
import AmbiRTC.HandshakeSafety
import AmbiRTC.HandshakeOutcome
import AmbiRTC.PipelineDrain
import AmbiRTC.SessionShutdown
import AmbiRTC.Recorder
import AmbiRTC.RecorderTakes
import AmbiRTC.MixTiming
import AmbiRTC.TurnProvider
import AmbiRTC.BridgeFeed
