import TTcp.Lib.Loop
import TTcp.Lib.PtrList
import TTcp.Lib.Run
import TTcp.PbufBounds
import TTcp.Inet.Sum
import TTcp.Ip.Report
import TTcp.Ip.Netif
import TTcp.Tcp.Connect
import TTcp.Tcp.Active
import TTcp.Tcp.Demux
import TTcp.Tcp.HalfOpen
import TTcp.Tcp.Mss
import TTcp.Memp
import TTcp.Arp.Exchange
import TTcp.Arp.Table
import TTcp.Udp.RoundTrip
import TTcp.Udp.Endpoints
import TTcp.Udp.Peer
import TTcp.Udp.Length
import TTcp.Tcp.Verify
import TTcp.Tcp.Route
import TTcp.Tcp.ThirdStep
import TTcp.Tcp.Progress
import TTcp.Tcp.Window
import TTcp.Tcp.Bounds
import TTcp.Tcp.Lengths
import TTcp.Trailer
import TTcp.Echo.Reply
import TTcp.PbufPool
import TTcp.PbufHeader
import TTcp.Api.Netbuf
import TTcp.Api.Cursor
import TTcp.Api.Message
import TTcp.Api.Sockets
import TTcp.Tcp.Leak
import TTcp.Tcp.Freed
import TTcp.Api.Recv
import TTcp.Tcpip
import TTcp.Inbound
import TTcp.Writes
import TTcp.Tcp.Lifetime
import TTcp.Lib.Network
import TTcp.Calls
import TTcp.Peers
import TTcp.Tcp.Owned
import TTcp.Owners
import TTcp.Traffic
import TTcp.Delivered
import TTcp.SMain
import TTcp.Routed
import TTcp.Wire
import TTcp.SMain.Prints
import TTcp.SMain.Sends
