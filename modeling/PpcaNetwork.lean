import PpcaNetwork.Lib.Net
import PpcaNetwork.Lib.Table
import PpcaNetwork.Lib.Run
import PpcaNetwork.TcpStack.Tcp
import PpcaNetwork.TcpStack.Stack
import PpcaNetwork.TcpStack.Connection
import PpcaNetwork.TcpStack.Transitions
import PpcaNetwork.TcpStack.SendSide
import PpcaNetwork.TcpStack.ReceiveSide
import PpcaNetwork.TcpStack.IdleTimer
import PpcaNetwork.Lib.Loop
import PpcaNetwork.Lib.Search
import PpcaNetwork.Lib.Stream
import PpcaNetwork.Lib.Numerals
import PpcaNetwork.Lib.Text
import PpcaNetwork.Lib.Http1.Chunked
import PpcaNetwork.Lib.Http1.Framing
import PpcaNetwork.DnsResolver.Message
import PpcaNetwork.DnsResolver.Cache
import PpcaNetwork.DnsResolver.Resolve
import PpcaNetwork.DnsResolver.Rounds
import PpcaNetwork.DnsResolver.Chain
import PpcaNetwork.DnsResolver.Referral
import PpcaNetwork.DnsResolver.Server
import PpcaNetwork.Minicaddy.Headers
import PpcaNetwork.Minicaddy.ReadBody
import PpcaNetwork.Minicaddy.ChunkedBody
import PpcaNetwork.Minicaddy.Proxy
import PpcaNetwork.Minicaddy.Files
import PpcaNetwork.Minicaddy.Server
import PpcaNetwork.Minicaddy.KeepAlive
import PpcaNetwork.TcpStack.ActiveClose
import PpcaNetwork.TcpStack.Replies
import PpcaNetwork.TcpStack.Resets
import PpcaNetwork.TcpStack.ClosingData
import PpcaNetwork.Lib.Pair
import PpcaNetwork.TcpStack.TimeWait
import PpcaNetwork.DnsResolver.Provenance
import PpcaNetwork.TcpStack.SimultaneousClose
import PpcaNetwork.DnsResolver.Forgery
import PpcaNetwork.DnsResolver.Poisoning
import PpcaNetwork.Lib.Octets
import PpcaNetwork.Lib.OnesComplement
import PpcaNetwork.TcpStack.Wire
import PpcaNetwork.TcpStack.Packets
import PpcaNetwork.Lib.Exec
import PpcaNetwork.DnsResolver.Decoding
import PpcaNetwork.DnsResolver.Codec
import PpcaNetwork.Lib.Expiring
import PpcaNetwork.DnsResolver.CacheRuns
import PpcaNetwork.DnsResolver.Lifetimes
import PpcaNetwork.TcpStack.FlowControl
import PpcaNetwork.Minicaddy.BodyFraming
import PpcaNetwork.Minicaddy.Pipelining
import PpcaNetwork.Minicaddy.PromisedClose
import PpcaNetwork.TcpStack.EphemeralPorts
import PpcaNetwork.TcpStack.Isolation
import PpcaNetwork.TcpStack.GivingUp
import PpcaNetwork.TcpStack.Arp
import PpcaNetwork.TcpStack.Link
import PpcaNetwork.TcpStack.FullStack
import PpcaNetwork.TcpStack.Neighbour
import PpcaNetwork.TcpStack.ArpQueue
import PpcaNetwork.TcpStack.PacketOrder
import PpcaNetwork.TcpStack.Destination
import PpcaNetwork.TcpStack.Receiving
import PpcaNetwork.DnsResolver.Budget
import PpcaNetwork.Lib.DomainName
import PpcaNetwork.Lib.ResourceRecords
import PpcaNetwork.DnsResolver.Names
import PpcaNetwork.DnsResolver.Relay
import PpcaNetwork.Lib.TokenBucket
import PpcaNetwork.Lib.Lockstep
import PpcaNetwork.Lib.Outstanding
import PpcaNetwork.Minicaddy.RateLimiter
import PpcaNetwork.MyProxy.Socks5
import PpcaNetwork.MyProxy.UdpRelay
import PpcaNetwork.MyProxy.ClientSlot
import PpcaNetwork.MyProxy.BadDatagrams
import PpcaNetwork.Toolkit.Icmp
import PpcaNetwork.Toolkit.Traceroute
import PpcaNetwork.Toolkit.Ping
import PpcaNetwork.TcpStack.CumulativeAcks
import PpcaNetwork.DnsResolver.BestServer
import PpcaNetwork.DnsResolver.ClosestZone
import PpcaNetwork.DnsResolver.Echo
import PpcaNetwork.Minicaddy.FileResponses
import PpcaNetwork.TcpStack.SendReport
import PpcaNetwork.TcpStack.ChecksumLaw
import PpcaNetwork.TcpStack.Padding
import PpcaNetwork.Minicaddy.Ranges
import PpcaNetwork.Minicaddy.Relaying
import PpcaNetwork.DnsResolver.NameWalks
import PpcaNetwork.DnsResolver.LegalNames
import PpcaNetwork.DnsResolver.RdataLength
import PpcaNetwork.Lib.Lines
import PpcaNetwork.Minicaddy.Config
import PpcaNetwork.Minicaddy.Comments
import PpcaNetwork.Minicaddy.VirtualHosts
import PpcaNetwork.Minicaddy.MalformedChunks
import PpcaNetwork.Lib.ReadExact
import PpcaNetwork.Lib.Base64
import PpcaNetwork.MyProxy.AddressCodec
import PpcaNetwork.MyProxy.Requests
import PpcaNetwork.MyProxy.Replies
import PpcaNetwork.MyProxy.ShortDatagrams
import PpcaNetwork.Minicaddy.Forwarding
import PpcaNetwork.Minicaddy.QueryStrings
import PpcaNetwork.Minicaddy.BasicAuth
import PpcaNetwork.DnsResolver.Compression
import PpcaNetwork.DnsResolver.RootHints
import PpcaNetwork.Lib.Html.Tokens
import PpcaNetwork.Lib.Html.References
import PpcaNetwork.Lib.Url
import PpcaNetwork.Minicaddy.ListingPages
import PpcaNetwork.TcpStack.UsableMappings
import PpcaNetwork.Toolkit.ProbeTable
import PpcaNetwork.Toolkit.IcmpErrors
import PpcaNetwork.Lib.Network
import PpcaNetwork.TcpStack.Lan
import PpcaNetwork.TcpStack.Outgoing
import PpcaNetwork.TcpStack.EndToEnd
import PpcaNetwork.TcpStack.EchoReplies
import PpcaNetwork.Toolkit.EchoRoundTrip
import PpcaNetwork.Toolkit.PathDiscovery
import PpcaNetwork.TcpStack.Settling
import PpcaNetwork.DnsResolver.Delegation
import PpcaNetwork.Minicaddy.Chaining
import PpcaNetwork.Minicaddy.Downloads
import PpcaNetwork.Lib.Fifo
import PpcaNetwork.TcpStack.Delivery
import PpcaNetwork.DnsResolver.Concurrency
