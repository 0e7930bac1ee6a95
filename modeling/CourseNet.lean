import CourseNet.BigEndian
import CourseNet.InternetChecksum
import CourseNet.ChecksumPieces
import CourseNet.NetParser
import CourseNet.IPv4
import CourseNet.Ethernet
import CourseNet.NetworkInterface
import CourseNet.IPv4Acceptance
import CourseNet.InterfaceLog
import CourseNet.DatagramConservation
import CourseNet.DatagramOrder
import CourseNet.ARPTiming
import CourseNet.LastBest
import CourseNet.Router
import CourseNet.RouteSelection
import CourseNet.RouterForwarding
import CourseNet.StepSystem
import CourseNet.SortedMap
import CourseNet.Excerpt
import CourseNet.WrappingIntegers
import CourseNet.ByteStream
import CourseNet.StreamHistory
import CourseNet.StreamReassembler
import CourseNet.ReassemblerTrim
import CourseNet.ReassemblerInvariant
import CourseNet.ReassemblerSafety
import CourseNet.ReassemblerProgress
import CourseNet.TCPSegment
import CourseNet.TCPReceiver
import CourseNet.TCPSender
import CourseNet.TCPConnection
import CourseNet.TCPState
import CourseNet.SenderFill
import CourseNet.SenderInvariant
import CourseNet.SenderWindow
import CourseNet.ConnectionSender
import CourseNet.OutboundProgress
import CourseNet.ConnectionLog
import CourseNet.ListenState
import CourseNet.TerminatedSilence
import CourseNet.OutboundCapacity
import CourseNet.ClosedWindow
import CourseNet.ConnectionFrame
import CourseNet.CleanClose
import CourseNet.ReceiverAdvance
import CourseNet.SegmentStream
import CourseNet.ReceiverStream
import CourseNet.Network
import CourseNet.Acknowledgments
import CourseNet.CloseWithoutLinger
import CourseNet.ReassemblerAccounting
import CourseNet.ReassemblerEof
import CourseNet.ReassemblerExact
import CourseNet.Framing
import CourseNet.DecimalText
import CourseNet.SocketPacket
import CourseNet.SocketServer
import CourseNet.SocketInvariant
import CourseNet.SignalDelivery
import CourseNet.SocketThread
import CourseNet.ClientRegistry
import CourseNet.MessageRouting
import CourseNet.SocketFraming
import CourseNet.SocketSurvival
import CourseNet.TCPWire
import CourseNet.TCPAcceptance
import CourseNet.TCPOverIPv4
import CourseNet.Tiling
import CourseNet.SenderTiling
import CourseNet.ReassemblerStale
import CourseNet.ReceiverWindow
import CourseNet.ConnectionQueue
import CourseNet.AbortSegment
import CourseNet.Replies
import CourseNet.AdvertisedWindow
import CourseNet.RetransmissionTimer
import CourseNet.HandshakePhase
import CourseNet.FileDescriptor
import CourseNet.EventLoop
import CourseNet.SegmentFormat
import CourseNet.FdAdapter
import CourseNet.AdapterLaws
import CourseNet.StateProgress
import CourseNet.BareAcks
import CourseNet.TCPSpongeSocket
import CourseNet.SocketLedger
import CourseNet.SocketNetwork
import CourseNet.SocketClose
import CourseNet.BidirectionalStreamCopy
import CourseNet.StreamCopyRuns
import CourseNet.Internetwork
import CourseNet.Neighbours
import CourseNet.InternetworkSafety
import CourseNet.InternetworkDelivery
import CourseNet.CopyNetwork
