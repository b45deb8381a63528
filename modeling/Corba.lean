import Corba.Placed
import Corba.Layout
import Corba.ByteOrder
import Corba.Ieee
import Corba.Exec
import Corba.Exception
import Corba.CdrLayout
import Corba.CdrEncoder
import Corba.CdrDecoder
import Corba.CdrRoundTrip
import Corba.CdrBounds
import Corba.Giop
import Corba.GiopDecoder
import Corba.GiopLayout
import Corba.GiopScan
import Corba.GiopRequest
import Corba.GiopReply
import Corba.GiopReference
import Corba.Orb
import Corba.GiopBounds
import Corba.OrbReply
import Corba.OrbAnswer
import Corba.CdrSound
import Corba.OrbException
import Corba.OrbReports
import Corba.Framing
import Corba.Stream2Packet
import Corba.OrbStream
import Corba.Runs
import Corba.Registry
import Corba.Interlock
import Corba.OrbRequest
import Corba.OrbCalls
import Corba.TcpConnection
import Corba.TcpRuns
import Corba.WsConnection
import Corba.ConnectionLoss
import Corba.Announcement
import Corba.ServiceContexts
import Corba.MessageScan
import Corba.Bidirectional
import Corba.Attempts
import Corba.ConnectTimer
import Corba.Watchers
import Corba.TcpInflow
import Corba.References
import Corba.NarrowServant
import Corba.HeaderOctets
import Corba.OrbReceive
import Corba.RequestIds
import Corba.SwapFloat
import Corba.FloatOrder
import Corba.BoundNames
import Corba.IsA
import Corba.PooledPeers
import Corba.WsHandshake
import Corba.Charconv
import Corba.Ior
import Corba.IorProfiles
import Corba.IorText
import Corba.Url
import Corba.UrlScan
import Corba.UrlGrammar
import Corba.UrlWhole
import Corba.UrlRoundTrip
import Corba.Languages
import Corba.UrlLanguage
import Corba.UrlAccept
import Corba.TcpOutflow
import Corba.FailedSend
import Corba.GiopBodies
import Corba.Encapsulations
import Corba.SequencePaths
import Corba.UrlNumbers
import Corba.UrlSafe
import Corba.FailedBind
import Corba.StreamRelease
import Corba.UrlEscapes
import Corba.ForgedCount
import Corba.SizeFields
import Corba.Locate
import Corba.Hosts
import Corba.RemoteCall
import Corba.Posts
import Corba.Conversation
import Corba.Drained
import Corba.TcpReads
import Corba.TcpLink
import Corba.NamingService
import Corba.NameTable
import Corba.StringToObject
import Corba.IdlTypes
import Corba.LineSimulation
import Corba.SingleSocket
import Corba.SocketConversation
import Corba.WsUpgrade
import Corba.Descriptors
