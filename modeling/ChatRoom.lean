import ChatRoom.Lib.Access
import ChatRoom.Lib.Audience
import ChatRoom.Lib.Base64
import ChatRoom.Lib.BigEndian
import ChatRoom.Lib.BlockingRead
import ChatRoom.Lib.Incremental
import ChatRoom.Lib.IteratedHash
import ChatRoom.Lib.Outbox
import ChatRoom.Lib.Polling
import ChatRoom.Lib.Runs
import ChatRoom.Lib.Sha1
import ChatRoom.Lib.Socket
import ChatRoom.Lib.Timer
import ChatRoom.Lib.UnorderedSet
import ChatRoom.Common.Text
import ChatRoom.Common.Buffer
import ChatRoom.Common.BufferQueue
import ChatRoom.Common.Json
import ChatRoom.Protocol.Packet
import ChatRoom.Protocol.RoundTrip
import ChatRoom.Protocol.Chunks
import ChatRoom.Server.Reactor
import ChatRoom.Server.ReactorLoop
import ChatRoom.Server.CallbackTable
import ChatRoom.Server.Room
import ChatRoom.Server.TokenStore
import ChatRoom.Tcp.Connection
import ChatRoom.Tcp.PacketStream
import ChatRoom.Tcp.MessageHandler
import ChatRoom.Tcp.Server
import ChatRoom.Tcp.Effects
import ChatRoom.Tcp.Sessions
import ChatRoom.Tcp.Answers
import ChatRoom.Tcp.PacketLimit
import ChatRoom.Tcp.Terminal
import ChatRoom.Tcp.EndOfStream
import ChatRoom.Tcp.Heartbeat
import ChatRoom.Tcp.IdleTimeout
import ChatRoom.Tcp.Wiring
import ChatRoom.Tcp.AuthenticationGate
import ChatRoom.Tcp.Routing
import ChatRoom.Tcp.WritePath
import ChatRoom.Tcp.OperationRule
import ChatRoom.Tcp.Service
import ChatRoom.Tcp.ServiceRefinement
import ChatRoom.Tcp.Provenance
import ChatRoom.Tcp.InputStream
import ChatRoom.Tcp.OutputStream
import ChatRoom.Tcp.Presence
import ChatRoom.Tcp.Descriptors
import ChatRoom.Tcp.Survival
import ChatRoom.Tcp.Crowd
import ChatRoom.Client.ChatClient
import ChatRoom.Client.Conversation
import ChatRoom.Client.Harmless
import ChatRoom.Ws.Frame
import ChatRoom.Ws.FrameSafety
import ChatRoom.Ws.FrameRoundTrip
import ChatRoom.Ws.SentFrame
import ChatRoom.Ws.FrameReader
import ChatRoom.Ws.FrameStream
import ChatRoom.Ws.Handshake
import ChatRoom.Ws.Base64Text
import ChatRoom.Ws.Digest
import ChatRoom.Http.Request
import ChatRoom.Http.Response
import ChatRoom.Http.RequestStream
import ChatRoom.Http.RoundTrip
import ChatRoom.Http.RequestFront
import ChatRoom.Http.DeclaredLength
import ChatRoom.Http.Chunks
import ChatRoom.Http.Query
import ChatRoom.Http.ResponseFraming
import ChatRoom.Http.RequestReuse
import ChatRoom.Http.ResponseStream
import ChatRoom.Web.World
import ChatRoom.Web.HttpConnection
import ChatRoom.Web.WsConnection
import ChatRoom.Web.Hub
import ChatRoom.Web.Frames
import ChatRoom.Web.Delivery
import ChatRoom.Web.Conversation
import ChatRoom.Web.WritePath
import ChatRoom.Web.InputProtocol
import ChatRoom.Web.OutputProtocol
import ChatRoom.Web.Routes
import ChatRoom.Web.HttpServer
import ChatRoom.Web.Server
import ChatRoom.Web.EventRule
import ChatRoom.Web.Dispatch
import ChatRoom.Web.Responses
import ChatRoom.Web.Sessions
import ChatRoom.Web.Speakers
import ChatRoom.Web.Refinement
import ChatRoom.Web.Ledger
import ChatRoom.Web.StaticFiles
import ChatRoom.Web.Provenance
import ChatRoom.Web.Revocation
import ChatRoom.Web.Locality
import ChatRoom.Web.ResponseWakeUp
import ChatRoom.Web.Registries
import ChatRoom.Web.Lifetime
import ChatRoom.Web.Releases
import ChatRoom.Web.RoomHistory
import ChatRoom.Web.Forum
import ChatRoom.Web.CallRule
import ChatRoom.Web.ForumRefinement
import ChatRoom.Web.Authenticity
import ChatRoom.Web.PlainResponses
import ChatRoom.Web.Exchange
import ChatRoom.Web.Broadcast
import ChatRoom.Web.Departure
import ChatRoom.Web.Subscribers
import ChatRoom.Web.Survival
import ChatRoom.Web.StartUp
import ChatRoom.Web.Polls
import ChatRoom.Web.HandOver
import ChatRoom.Web.UpgradeStream
import ChatRoom.Web.EndOfStream
import ChatRoom.Server.EndOfStream
import ChatRoom.Server.WritePath
