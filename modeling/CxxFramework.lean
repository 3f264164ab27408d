import CxxFramework.Basic.ConfParser
import CxxFramework.Basic.ConfigLines
import CxxFramework.Basic.GetWord
import CxxFramework.Basic.MD5Context
import CxxFramework.Basic.MD5Digest
import CxxFramework.Basic.MD5Encode
import CxxFramework.Core.Base64
import CxxFramework.Core.BufferPool
import CxxFramework.Core.CString
import CxxFramework.Core.CaseComparison
import CxxFramework.Core.ConcurrentQueue
import CxxFramework.Core.DateParser
import CxxFramework.Core.DateTranslator
import CxxFramework.Core.DecodeURL
import CxxFramework.Core.EncodeURL
import CxxFramework.Core.FileSource
import CxxFramework.Core.FileSourceCache
import CxxFramework.Core.FileSourceFaults
import CxxFramework.Core.FileSourceMap
import CxxFramework.Core.FileSourceSwitch
import CxxFramework.Core.FindString
import CxxFramework.Core.FixedFormatter
import CxxFramework.Core.FormatterMemory
import CxxFramework.Core.GrowingFormatter
import CxxFramework.Core.HashTable
import CxxFramework.Core.HashTableIter
import CxxFramework.Core.Heap
import CxxFramework.Core.HeapMembership
import CxxFramework.Core.HeapOrder
import CxxFramework.Core.HeapRun
import CxxFramework.Core.LinkedTable
import CxxFramework.Core.MakeDir
import CxxFramework.Core.Mutex
import CxxFramework.Core.PLDoubleLinkedList
import CxxFramework.Core.ParserBounds
import CxxFramework.Core.ParserLength
import CxxFramework.Core.ParserRun
import CxxFramework.Core.PrintStrEOL
import CxxFramework.Core.Queue
import CxxFramework.Core.RWMutex
import CxxFramework.Core.RefTable
import CxxFramework.Core.SpinLock
import CxxFramework.Core.StringFormatter
import CxxFramework.Core.StringParser
import CxxFramework.Core.StringTranslator
import CxxFramework.Core.URLBounds
import CxxFramework.Http.Base64RequestStream
import CxxFramework.Http.Base64StreamRun
import CxxFramework.Http.BodyAssembly
import CxxFramework.Http.CheckedParse
import CxxFramework.Http.ClientRequest
import CxxFramework.Http.DecodeArg
import CxxFramework.Http.FullBuffer
import CxxFramework.Http.HTTPClientRequestStream
import CxxFramework.Http.HTTPClientResponseStream
import CxxFramework.Http.HTTPDispatcher
import CxxFramework.Http.HTTPPacket
import CxxFramework.Http.HTTPProtocol
import CxxFramework.Http.HTTPRequestStream
import CxxFramework.Http.HTTPResponseStream
import CxxFramework.Http.HTTPSession
import CxxFramework.Http.HTTPSessionInterface
import CxxFramework.Http.HeaderBlock
import CxxFramework.Http.HeaderLookup
import CxxFramework.Http.HeaderRoundTrip
import CxxFramework.Http.HeaderSafety
import CxxFramework.Http.HeaderSearch
import CxxFramework.Http.HeaderText
import CxxFramework.Http.MessageEnd
import CxxFramework.Http.ParseSafety
import CxxFramework.Http.QueryParamList
import CxxFramework.Http.RequestLine
import CxxFramework.Http.RequestPath
import CxxFramework.Http.RequestRoundTrip
import CxxFramework.Http.RequestSegments
import CxxFramework.Http.RequestStreamRun
import CxxFramework.Http.ResponseBuffer
import CxxFramework.Http.ResponseHeader
import CxxFramework.Http.ResponseOrder
import CxxFramework.Http.ResponseStreamRun
import CxxFramework.Http.SendBounds
import CxxFramework.Http.ServedRequests
import CxxFramework.Http.SessionClose
import CxxFramework.Http.SessionDispatch
import CxxFramework.Http.SessionLifetime
import CxxFramework.Http.SessionResponse
import CxxFramework.Http.SessionSteps
import CxxFramework.Http.SnarfRetreat
import CxxFramework.Http.TableSearch
import CxxFramework.Http.TunnelReceive
import CxxFramework.Http.TunnelSend
import CxxFramework.Http.UserAgentParser
import CxxFramework.Http.WildcardRouting
import CxxFramework.Library.Absorb
import CxxFramework.Library.BinaryHeap
import CxxFramework.Library.Buffer
import CxxFramework.Library.Calendar
import CxxFramework.Library.Chains
import CxxFramework.Library.DotSegments
import CxxFramework.Library.DoubleChain
import CxxFramework.Library.LinkedChain
import CxxFramework.Library.LinkedRing
import CxxFramework.Library.PendingCopy
import CxxFramework.Library.Refinement
import CxxFramework.Library.Runs
import CxxFramework.Library.Search
import CxxFramework.Library.Transition
import CxxFramework.Socket.ClientSocket
import CxxFramework.Socket.ConnectRun
import CxxFramework.Socket.Epoll
import CxxFramework.Socket.EpollDelivery
import CxxFramework.Socket.EventClassification
import CxxFramework.Socket.EventCleanup
import CxxFramework.Socket.EventContext
import CxxFramework.Socket.EventHandOver
import CxxFramework.Socket.EventIdentifiers
import CxxFramework.Socket.EventLoop
import CxxFramework.Socket.HTTPClientHandshake
import CxxFramework.Socket.HTTPClientSend
import CxxFramework.Socket.HTTPClientSocket
import CxxFramework.Socket.ServerExit
import CxxFramework.Socket.Socket
import CxxFramework.Socket.TCPListenerSocket
import CxxFramework.Socket.TunnelRead
import CxxFramework.Socket.UDPDemuxer
import CxxFramework.Socket.UDPSocketPairs
import CxxFramework.Socket.UDPSocketPool
import CxxFramework.Thread.GlobalLock
import CxxFramework.Thread.IdleTask
import CxxFramework.Thread.SchedulerSleep
import CxxFramework.Thread.Task
import CxxFramework.Thread.TaskEvents
import CxxFramework.Thread.TaskPlacement
import CxxFramework.Thread.ThreadChoice
import CxxFramework.Thread.TimeoutRun
import CxxFramework.Thread.TimeoutTask
