import SmartServer.Lib.IntLayout
import SmartServer.Lib.Loop
import SmartServer.Lib.Memory
import SmartServer.Lib.Framing
import SmartServer.Lib.Run
import SmartServer.Lib.Pieces
import SmartServer.StructType
import SmartServer.MsgNode
import SmartServer.TcpHandler
import SmartServer.ReadLoop
import SmartServer.ReadEvents
import SmartServer.Cursor
import SmartServer.NetWorker
import SmartServer.WorkerQueue
import SmartServer.Stands
import SmartServer.Connection
import SmartServer.MsgHandler
import SmartServer.NetWorkSystem
import SmartServer.WorkerProgress
import SmartServer.SystemSteps
import SmartServer.SystemInvariant
import SmartServer.SystemProgress
import SmartServer.Replies
import SmartServer.Delivery
import SmartServer.ConnectionMaps
import SmartServer.Teardown
import SmartServer.HandlerUse
import SmartServer.Resources
import SmartServer.ReadCounters
import SmartServer.ListShape
import SmartServer.AllocationFailure
import SmartServer.HandlerTable
import SmartServer.StreamQueue
import SmartServer.WorkerShutdown
import SmartServer.ReplyClient
import SmartServer.Lib.Varint
import SmartServer.CodedInputStream
import SmartServer.CodedOutputStream
import SmartServer.Lib.Sections
import SmartServer.WorkerLock
import SmartServer.AtomicBodies
import SmartServer.Lib.Items
import SmartServer.WireFormat
import SmartServer.UnknownFields
import SmartServer.SmartTest
import SmartServer.SmartTestRoundTrip
import SmartServer.TestMsgHandler
import SmartServer.WorkerDrain
import SmartServer.Answers
import SmartServer.Echo
