import UnixNet.Lib.Execution
import UnixNet.Wrap.Readline
import UnixNet.Wrap.Splitting
import UnixNet.Wrap.Counting
import UnixNet.Pub.Codec
import UnixNet.Pub.GetLine
import UnixNet.Pub.InPlace
import UnixNet.Pub.Bounds
import UnixNet.Host
import UnixNet.Lib.Sink
import UnixNet.EpollWeb.SendData
import UnixNet.EpollWeb.Response
import UnixNet.EpollWeb.Server
import UnixNet.EpollWeb.Isolation
import UnixNet.EpollWeb.Drain
import UnixNet.EpollWeb.Segmentation
import UnixNet.Bufferevent
import UnixNet.Lib.Message
import UnixNet.LibeventWeb.Requests
import UnixNet.LibeventWeb.Framing
import UnixNet.EventWb.Requests
import UnixNet.EventWb.Framing
import UnixNet.Lib.Path
import UnixNet.Confinement
import UnixNet.Lib.Sockets
import UnixNet.PollDemo.Server
import UnixNet.PollDemo.SlotTable
import UnixNet.PollDemo.Reported
import UnixNet.TcpServerDemo.SelectServer
import UnixNet.Lib.Pipe
import UnixNet.Wrap.Transfer
import UnixNet.Lib.Reference
import UnixNet.Wrap.Sharing
import UnixNet.Browser
import UnixNet.EventWb.Links
import UnixNet.EventWb.Sizes
import UnixNet.EventWb.DecodedPath
import UnixNet.EpollWeb.Links
import UnixNet.LibeventWeb.Links
import UnixNet.Links
import UnixNet.LibeventWeb.Connection
import UnixNet.LibeventWeb.Ownership
import UnixNet.LibeventWeb.Delivery
import UnixNet.EventWb.Connection
import UnixNet.Arrivals
import UnixNet.ScannedLine
import UnixNet.EpollWeb.SendLengths
import UnixNet.EpollWeb.Page
import UnixNet.AnnouncedLength
import UnixNet.EpollWeb.Closing
import UnixNet.EpollWeb.ServedPath
import UnixNet.LibeventWeb.Page
import UnixNet.Libevent.EventServer
import UnixNet.EpollWeb.Webdemo01
import UnixNet.Echo
import UnixNet.Lib.Files
import UnixNet.Log.Logger
import UnixNet.Log.Lifecycle
import UnixNet.EPollDemo.Server
import UnixNet.LocalSocket.Rounds
import UnixNet.EPollDemo.Wakeups
import UnixNet.EPollDemo.Abandoned
import UnixNet.Lib.JsNumber
import UnixNet.Cgi.Calculator
import UnixNet.Cgi.GetAndPost
import UnixNet.Lib.Memory
import UnixNet.Lib.FileTree
import UnixNet.Lib.Endian
import UnixNet.Lib.InternetChecksum
import UnixNet.SockRaw.Checksum
import UnixNet.Lib.Datagram
import UnixNet.SockRaw.UdpMessage
import UnixNet.SockRaw.Addresses
import UnixNet.SockRaw.AnalyzeMac
import UnixNet.SockRaw.GetMacAddr
import UnixNet.TcpServerDemo.ProcessServer
import UnixNet.Libevent.EchoCallbacks
import UnixNet.EPollDemo.Terminal
import UnixNet.Log.Opening
import UnixNet.Lib.Switches
import UnixNet.Log.Options
import UnixNet.TcpServerDemo.Capacity
import UnixNet.Lib.Conduit
import UnixNet.Lib.BufferedSocket
import UnixNet.LeProxy.Proxy
import UnixNet.LeProxy.Relay
import UnixNet.LeProxy.Settling
import UnixNet.Libevent.Greeting
import UnixNet.Lib.Wildcard
import UnixNet.HttpsClient.Hostcheck
import UnixNet.HttpsClient.HostnameValidation
import UnixNet.HttpServer.SendDocument
import UnixNet.Lib.Descriptors
import UnixNet.TcpServerDemo.Processes
import UnixNet.TcpServerDemo.ProcessEcho
import UnixNet.TcpServerDemo.Reaping
import UnixNet.Lib.Exchange
import UnixNet.UdpServer.Rounds
import UnixNet.EPollDemo.PipeRecords
import UnixNet.SockRaw.Analyzed
import UnixNet.SockRaw.ArpDeceit
import UnixNet.Log.Records
import UnixNet.PollDemo.Capacity
import UnixNet.Wrap.LineProtocol
import UnixNet.Libevent.EventReadFifo
import UnixNet.Cgi.Synchronous
import UnixNet.HttpsClient.Request
import UnixNet.HttpServer.IndexLinks
