import SrtVpn.BigEndian
import SrtVpn.Tables
import SrtVpn.Transducer
import SrtVpn.Wire
import SrtVpn.Encoder
import SrtVpn.Decoder
import SrtVpn.Slots
import SrtVpn.Isolation
import SrtVpn.SessionView
import SrtVpn.SessionOrder
import SrtVpn.Chunks
import SrtVpn.Session
import SrtVpn.Delivery
import SrtVpn.ReturnOrder
import SrtVpn.EarlyFrames
import SrtVpn.Generations
import SrtVpn.Sync
import SrtVpn.AuthReplay
import SrtVpn.UdpFrames
import SrtVpn.Reassembly
import SrtVpn.Splicing
import SrtVpn.Dispatch
import SrtVpn.ForwardLoop
import SrtVpn.HttpProxy
import SrtVpn.Socks5
import SrtVpn.AuthGate
import SrtVpn.Connection
import SrtVpn.Endpoints
import SrtVpn.RejectedOpen
import SrtVpn.Cleanup
import SrtVpn.Lifecycle
import SrtVpn.Backpressure
import SrtVpn.HalfClose
import SrtVpn.OpenRace
import SrtVpn.Ownership
import SrtVpn.Transparency
import SrtVpn.Tunnel
import SrtVpn.Uplink
import SrtVpn.ServerTasks
import SrtVpn.TurnTaking
import SrtVpn.Arrivals
import SrtVpn.Streams
import SrtVpn.Provenance
import SrtVpn.Datagrams
import SrtVpn.FrameCodec
import SrtVpn.Duplicates
import SrtVpn.TextParts
import SrtVpn.UdpTargets
import SrtVpn.OpenTargets
import SrtVpn.HostileFragments
import SrtVpn.FragmentOrder
import SrtVpn.TextFields
import SrtVpn.Handshake
import SrtVpn.Heartbeats
import SrtVpn.Configuration
import SrtVpn.RunningConfig
import SrtVpn.ReliableUdp
import SrtVpn.Credentials
import SrtVpn.StreamToken
import SrtVpn.TimeWindow
import SrtVpn.EnvOverrides
import SrtVpn.Conservation
import SrtVpn.Diagnostics
import SrtVpn.EpochReuse
import SrtVpn.Exhaustion
import SrtVpn.Addresses
import SrtVpn.UdpRelay
import SrtVpn.TextPrefixes
import SrtVpn.Segments
import SrtVpn.Attempts
import SrtVpn.Counters
import SrtVpn.AcceptLoop
import SrtVpn.Allocation
import SrtVpn.SessionGauge
import SrtVpn.BatchReceive
import SrtVpn.Watermarks
import SrtVpn.DecoderInvariant
import SrtVpn.Checked
import SrtVpn.DecoderArithmetic
import SrtVpn.SequenceDiscipline
import SrtVpn.ReassemblyInvariant
import SrtVpn.FragmentSizes
import SrtVpn.Authorities
import SrtVpn.Ipv6Texts
import SrtVpn.Rounding
import SrtVpn.Latency
import SrtVpn.PartialRuns
import SrtVpn.UdpChannel
import SrtVpn.SocketAddrs
import SrtVpn.UdpForward
import SrtVpn.UdpEndToEnd
import SrtVpn.SendOrder
import SrtVpn.Speech
import SrtVpn.SessionTasks
import SrtVpn.SessionSpeech
import SrtVpn.Supervision
import SrtVpn.Dialogues
import SrtVpn.Downlink
import SrtVpn.Downstream
import SrtVpn.HttpDialogues
import SrtVpn.Admission
import SrtVpn.Silence
import SrtVpn.HonestClient
import SrtVpn.FrontEnd
import SrtVpn.HostileHeaders
import SrtVpn.SendRefinement
import SrtVpn.DispatchRefinement
