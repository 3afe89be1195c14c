import SingBox.AnyTls.Client
import SingBox.AnyTls.Client.Frames
import SingBox.AnyTls.Client.Open
import SingBox.AnyTls.Client.Reservation
import SingBox.AnyTls.Client.Step
import SingBox.AnyTls.Connection
import SingBox.AnyTls.Connection.Agreement
import SingBox.AnyTls.Connection.Step
import SingBox.AnyTls.Connection.Wrap
import SingBox.AnyTls.Frame
import SingBox.AnyTls.Md5
import SingBox.AnyTls.Outbound.Converges
import SingBox.AnyTls.Outbound.Negotiation
import SingBox.AnyTls.Padding
import SingBox.AnyTls.Padding.Preamble
import SingBox.AnyTls.Padding.Theorems
import SingBox.AnyTls.Reaper
import SingBox.AnyTls.Server
import SingBox.AnyTls.Session
import SingBox.AnyTls.Session.Delivery
import SingBox.AnyTls.Session.Flush
import SingBox.AnyTls.Session.Isolation
import SingBox.AnyTls.Session.Lock
import SingBox.AnyTls.Tunnel
import SingBox.AnyTls.Tunnel.Delivery
import SingBox.AnyTls.Uot
import SingBox.AnyTls.Uot.RoundTrip
import SingBox.CertificateUpdates
import SingBox.Cli.Acme
import SingBox.Cli.Acme.Issue
import SingBox.Cli.Acme.Issues
import SingBox.Cli.Acme.Provides
import SingBox.Cli.ConfigLoader
import SingBox.Cli.ConfigLoader.Load
import SingBox.Cli.ConfigLoader.PathWise
import SingBox.Cli.RuleSetFetcher
import SingBox.Cli.RuleSetFetcher.Redirects
import SingBox.Cli.RuleSetFetcher.References
import SingBox.Cli.RuleSetFetcher.Urls
import SingBox.Cloudflared.ConnectFrame
import SingBox.Cloudflared.Datagram
import SingBox.Cloudflared.Discovery
import SingBox.Cloudflared.Discovery.Edges
import SingBox.Cloudflared.Discovery.Names
import SingBox.Cloudflared.Discovery.Response
import SingBox.Cloudflared.H2Writer
import SingBox.Cloudflared.Http2Request
import SingBox.Cloudflared.OriginRequest
import SingBox.Cloudflared.OriginRequest.Head
import SingBox.Cloudflared.Quic
import SingBox.Cloudflared.Quic.Datagrams
import SingBox.Cloudflared.Quic.Registration
import SingBox.Cloudflared.Quic.RoundTrip
import SingBox.Cloudflared.Quic.Rpc
import SingBox.Cloudflared.Quic.Sessions
import SingBox.Cloudflared.Registration
import SingBox.Cloudflared.RemoteConfig
import SingBox.Cloudflared.RemoteConfig.Ingress
import SingBox.Cloudflared.RemoteConfig.Updates
import SingBox.Cloudflared.Request
import SingBox.Cloudflared.Request.FrontEnds
import SingBox.Cloudflared.Request.Source
import SingBox.Cloudflared.ResponseBody
import SingBox.Cloudflared.ResponseBody.Segmentation
import SingBox.Cloudflared.ServeOrigin
import SingBox.Cloudflared.ServeOrigin.Bodyless
import SingBox.Cloudflared.ServeOrigin.Headers
import SingBox.Cloudflared.Supervisor
import SingBox.Cloudflared.Supervisor.Outcomes
import SingBox.Cloudflared.Supervisor.Runs
import SingBox.Core.Buffer
import SingBox.Core.Buffer.Economy
import SingBox.Core.Buffer.Transparent
import SingBox.Core.CertificateUpdates
import SingBox.Core.Dialer
import SingBox.Core.Engine
import SingBox.Core.Engine.Build
import SingBox.Core.Ip
import SingBox.Core.Ip.Printed
import SingBox.Core.Ip.RoundTrip
import SingBox.Core.Ip.Text
import SingBox.Core.Json
import SingBox.Core.LocalRuleSet
import SingBox.Core.Manager
import SingBox.Core.Manager.Order
import SingBox.Core.Ntp
import SingBox.Core.PacketRelay
import SingBox.Core.PacketRelay.Destinations
import SingBox.Core.Radix
import SingBox.Core.RemoteRuleSet
import SingBox.Core.Router
import SingBox.Core.Router.AddressForms
import SingBox.Core.Router.Build
import SingBox.Core.Router.Running
import SingBox.Core.Router.Snapshots
import SingBox.Core.Router.Whitelist
import SingBox.Core.Rule
import SingBox.Core.RuleSet.Shrink
import SingBox.Core.Socks
import SingBox.Core.Socks.Codec
import SingBox.Core.Socks.Datagrams
import SingBox.Core.Socks.Server
import SingBox.Core.Srs
import SingBox.Core.Srs.Decode
import SingBox.Core.Srs.DomainMatcher
import SingBox.Core.Srs.DomainTrie
import SingBox.Core.Srs.DomainWalk
import SingBox.Core.Srs.IpSet
import SingBox.Core.Srs.Layout
import SingBox.Core.Srs.RangeCover
import SingBox.Core.Srs.RoundTrip
import SingBox.Core.Tasks
import SingBox.Destinations
import SingBox.Digests
import SingBox.Hops
import SingBox.Hysteria2.Masquerade
import SingBox.Hysteria2.Masquerade.Files
import SingBox.Hysteria2.Masquerade.Listing
import SingBox.Hysteria2.Masquerade.Paths
import SingBox.Hysteria2.Masquerade.Proxy
import SingBox.Library.Async
import SingBox.Library.BreadthFirst
import SingBox.Library.BufReader
import SingBox.Library.Checked
import SingBox.Library.Chunked
import SingBox.Library.Codings
import SingBox.Library.Comments
import SingBox.Library.Decoder
import SingBox.Library.Dependencies
import SingBox.Library.Der
import SingBox.Library.Digest
import SingBox.Library.Dns
import SingBox.Library.Dyadic
import SingBox.Library.Exchange
import SingBox.Library.FileSystem
import SingBox.Library.FirstDecision
import SingBox.Library.Follows
import SingBox.Library.HeadLines
import SingBox.Library.HttpHead
import SingBox.Library.Loop
import SingBox.Library.Markup
import SingBox.Library.Newest
import SingBox.Library.Reader
import SingBox.Library.Relay
import SingBox.Library.Result
import SingBox.Library.Run
import SingBox.Library.Segments
import SingBox.Library.Sine
import SingBox.Library.Slots
import SingBox.Library.SortedMap
import SingBox.Library.StableSort
import SingBox.Library.Steps
import SingBox.Library.Text
import SingBox.Library.Traced
import SingBox.Library.Uri
import SingBox.Library.Uri.Dots
import SingBox.Library.Utf8
import SingBox.Library.Watch
import SingBox.Responses.Decoders
import SingBox.Responses.Heads
import SingBox.Responses.Interim
import SingBox.Responses.NotModified
import SingBox.Responses.Parsers
import SingBox.Snell
import SingBox.Tls.Base64
import SingBox.Tls.Reality
import SingBox.Tls.Reality.Certificate
import SingBox.Tls.Reality.Fallback
import SingBox.Vless.Base64
import SingBox.Vless.Base64.Accumulator
import SingBox.Vless.Handover
import SingBox.Vless.Http
import SingBox.Vless.Http.Heads
import SingBox.Vless.Http.RoundTrip
import SingBox.Vless.Inbound
import SingBox.Vless.Inbound.Routes
import SingBox.Vless.Outbound
import SingBox.Vless.Outbound.Connects
import SingBox.Vless.Outbound.Head
import SingBox.Vless.Outbound.Received
import SingBox.Vless.Request
import SingBox.Vless.RoundTrip
import SingBox.Vless.Sha1
import SingBox.Vless.Transport
import SingBox.Vless.WebSocket
import SingBox.Vless.WebSocket.Calls
import SingBox.Vless.WebSocket.Close
import SingBox.Vless.WebSocket.Frames
import SingBox.Vless.WebSocket.Input
import SingBox.Vless.WebSocket.Outcome
import SingBox.Vless.WebSocket.Output
import SingBox.Vless.WebSocket.Poll
import SingBox.Vless.WebSocket.Progress
import SingBox.Vless.WebSocket.Read
import SingBox.Vless.WebSocket.Send
import SingBox.Vless.WebSocket.Step
import SingBox.Vless.WebSocket.Wire
import SingBox.Vless.WebSocket.Write
