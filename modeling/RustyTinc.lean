import RustyTinc.Library.OrdMap
import RustyTinc.Library.Recency
import RustyTinc.Library.SpanningTree
import RustyTinc.Library.Worklist
import RustyTinc.Core.Graph
import RustyTinc.Core.Sssp
import RustyTinc.Core.Reachability
import RustyTinc.Core.Mst
import RustyTinc.Core.Subnet
import RustyTinc.Core.Protocol
import RustyTinc.Core.State
import RustyTinc.Core.Runs
import RustyTinc.Core.Consistency
import RustyTinc.Core.Relay
import RustyTinc.Core.ShortestRoutes
import RustyTinc.Library.Flood
import RustyTinc.Runtime.Engine
import RustyTinc.Runtime.Broadcast
import RustyTinc.Library.SlidingWindow
import RustyTinc.Runtime.Sptps.Record
import RustyTinc.Runtime.Sptps.ReplayWindow
import RustyTinc.Library.Bytes
import RustyTinc.Runtime.Sptps.Crypto
import RustyTinc.Library.Stateful
import RustyTinc.Runtime.Sptps.Codec
import RustyTinc.Runtime.Sptps.Handshake
import RustyTinc.Runtime.Sptps.Authentication
import RustyTinc.Runtime.Sptps.Epochs
import RustyTinc.Runtime.Sptps.Duplex
import RustyTinc.Library.Gossip
import RustyTinc.Core.PastRequests
import RustyTinc.Daemon.SubnetRelay
import RustyTinc.Daemon.SubnetGossip
import RustyTinc.Core.Descent
import RustyTinc.Daemon.PathMtu
import RustyTinc.Daemon.Transmit
import RustyTinc.Runtime.Legacy.Packet
import RustyTinc.Runtime.Legacy.ReplayWindow
import RustyTinc.Runtime.Legacy.UdpCodec
import RustyTinc.Runtime.Legacy.InOrder
import RustyTinc.Runtime.Legacy.MetaCrypto
import RustyTinc.Library.KeyedCounter
import RustyTinc.Runtime.Sptps.Nonces
import RustyTinc.Runtime.Sptps.Encryption
import RustyTinc.Library.RankedSearch
import RustyTinc.Core.SubnetOrder
import RustyTinc.Core.Route
import RustyTinc.Library.Text
import RustyTinc.Core.AddressText
import RustyTinc.Core.SubnetText
import RustyTinc.Core.MetaText
import RustyTinc.Library.FrameStream
import RustyTinc.Runtime.Meta.Auth
import RustyTinc.Runtime.Meta.Stream
import RustyTinc.Runtime.Meta.Driver
import RustyTinc.Runtime.Meta.Chunks
import RustyTinc.Runtime.Meta.Activation
import RustyTinc.Runtime.Legacy.MetaAuth
import RustyTinc.Runtime.Legacy.MetaDriver
import RustyTinc.Runtime.Legacy.MetaChunks
import RustyTinc.Core.Frame
import RustyTinc.Core.Base64
import RustyTinc.Core.Component
import RustyTinc.Core.EndlessSearch
import RustyTinc.Core.Fragment
import RustyTinc.Core.IcmpError
import RustyTinc.Core.MssClamp
import RustyTinc.Core.Purge
import RustyTinc.Core.RoutePreference
import RustyTinc.Core.SeenOnce
import RustyTinc.Core.StaticRelay
import RustyTinc.Core.SubnetGrammar
import RustyTinc.Core.WeightRange
import RustyTinc.Daemon.DuplicateMessages
import RustyTinc.Daemon.Tarpit
import RustyTinc.Runtime.Legacy.LateNumbers
import RustyTinc.Runtime.Meta.WeightSums
import RustyTinc.Runtime.NodeAddresses
import RustyTinc.Runtime.Sptps.Pem
import RustyTinc.Daemon.MetaDrivers
import RustyTinc.Library.FramePieces
import RustyTinc.Runtime.Meta.RoundTrip
import RustyTinc.Runtime.KeyAgreement
import RustyTinc.Runtime.Unicast
import RustyTinc.Runtime.Sptps.PacketMesh
import RustyTinc.Core.Config
import RustyTinc.Daemon.ServerConfig
import RustyTinc.Daemon.AddressCache
import RustyTinc.Tincctl.ConfigRewrite
import RustyTinc.Tincctl.ConfigRuns
import RustyTinc.Tincctl.HostExchange
