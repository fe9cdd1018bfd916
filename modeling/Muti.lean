import Muti.ClusterMapCodec
import Muti.ClusterMapMon
import Muti.Progress
import Muti.ServerReadBuffer
import Muti.ClientLifetime
import Muti.Protocol
import Muti.Connection
import Muti.ConnectionAccounts
import Muti.ConnectionCover
import Muti.ConnectionClose
import Muti.SocketWrite
import Muti.WriteStream
import Muti.BackPressure
import Muti.ClusterMapLifetime
import Muti.ConnectionReference
import Muti.ObjectServiceJoin
import Muti.SocketEpoll
import Muti.ClientRouting
import Muti.ClientReadBuffer
import Muti.ThreadPool
import Muti.FiniteMap
import Muti.MapRefinement
import Muti.SocketRead
import Muti.Placement
import Muti.ReaderExtent
import Muti.ClusterMapTotality
import Muti.ClusterMapAccepted
import Muti.ClusterMapObjectService
import Muti.Dispatch
import Muti.ReadRoom
import Muti.Descriptors
import Muti.KeepAlive
import Muti.KeepAliveDestroy
import Muti.ClusterMapLength
import Muti.ClusterMapSlots
import Muti.StatusRoundTrip
import Muti.Json
import Muti.ObjectListRoom
import Muti.ObjectPaths
import Muti.InitFile
import Muti.ClusterKeepAlive
import Muti.ServerContext
import Muti.HouseKeeping
import Muti.HouseKeepingDestroy
import Muti.ConnectionJobs
import Muti.Rings
import Muti.LinkedList
import Muti.LinkedListSequences
import Muti.ClientEpoll
import Muti.ClientEpollShared
import Muti.JsonParse
import Muti.JsonSafety
import Muti.JsonText
import Muti.FileUtil
import Muti.MonitorStart
import Muti.ClusterProtocol
import Muti.ConnectionEnds
import Muti.Pipe
import Muti.CallLedger
import Muti.RemoteCall
import Muti.Foo
import Muti.FooDao
import Muti.FooHandler
import Muti.FooPages
import Muti.FooService
import Muti.MapDistribution
import Muti.JsonUnicode
import Muti.InPlace
import Muti.ReadInPlace
import Muti.InPlaceAgreement
import Muti.InPlaceAgreement
