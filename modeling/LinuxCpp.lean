import LinuxCpp.C.Strings
import LinuxCpp.C.Memory
import LinuxCpp.C.Strtok
import LinuxCpp.Kvstore.Array
import LinuxCpp.Kvstore.ArraySlots
import LinuxCpp.Kvstore.ArraySpec
import LinuxCpp.Kvstore.ArrayHistory
import LinuxCpp.Kvstore.ArrayDense
import LinuxCpp.Kvstore.ArraySurvival
import LinuxCpp.Kvstore.ArrayHoles
import LinuxCpp.C.Alike
import LinuxCpp.Kvstore.ArrayCells
import LinuxCpp.Kvstore.ArrayCodes
import LinuxCpp.RedBlack.Tree
import LinuxCpp.RedBlack.InsertRepair
import LinuxCpp.RedBlack.Search
import LinuxCpp.RedBlack.Splice
import LinuxCpp.Kvstore.Rbtree
import LinuxCpp.Kvstore.RbtreeRep
import LinuxCpp.Kvstore.RbtreeRotate
import LinuxCpp.Kvstore.RbtreeTurn
import LinuxCpp.Kvstore.RbtreeSearch
import LinuxCpp.Kvstore.RbtreeInsert
import LinuxCpp.Kvstore.RbtreeSet
import LinuxCpp.Kvstore.RbtreeUnlink
import LinuxCpp.Kvstore.RbtreeDelete
import LinuxCpp.Kvstore.RbtreeDel
import LinuxCpp.Kvstore.Hash
import LinuxCpp.Kvstore.HashSpec
import LinuxCpp.Kvstore.HashOps
import LinuxCpp.Kvstore.HashRefines
import LinuxCpp.Kvstore.HashIndex
import LinuxCpp.Kvstore.Protocol
import LinuxCpp.Kvstore.ProtocolSplit
import LinuxCpp.C.Returns
import LinuxCpp.Kvstore.RbtreeValues
import LinuxCpp.Kvstore.StoreValues
import LinuxCpp.Kvstore.Session
import LinuxCpp.Kvstore.ReplyBound
import LinuxCpp.C.Extends
import LinuxCpp.Kvstore.LoopBound
import LinuxCpp.Kvstore.RbtreeMod
import LinuxCpp.Kvstore.Requests
import LinuxCpp.Kvstore.EngineSteps
import LinuxCpp.Kvstore.Sendable
import LinuxCpp.Kvstore.RequestHistory
import LinuxCpp.Kvstore.Interchange
import LinuxCpp.Trace.Course
import LinuxCpp.Net.Epoll
import LinuxCpp.Net.Exchange
import LinuxCpp.Net.Reactor
import LinuxCpp.Net.ReactorRounds
import LinuxCpp.Net.Proactor
import LinuxCpp.Net.ProactorWork
import LinuxCpp.Net.ProactorApart
import LinuxCpp.Kvstore.FreshMemory
import LinuxCpp.C.Refusal
import LinuxCpp.Kvstore.AllocFailure
import LinuxCpp.Kvstore.Ledger
import LinuxCpp.Kvstore.LedgerHash
import LinuxCpp.Trace.Along
import LinuxCpp.Trace.Custody
import LinuxCpp.Ustack.World
import LinuxCpp.Ustack.Tcp
import LinuxCpp.Ustack.Socket
import LinuxCpp.Ustack.Receive
import LinuxCpp.Ustack.Arrivals
import LinuxCpp.Ustack.ReadOrder
import LinuxCpp.Ustack.Machine
import LinuxCpp.Ustack.Lifetimes
import LinuxCpp.Ustack.AckGates
import LinuxCpp.Ustack.Accept
import LinuxCpp.Ustack.Descriptors
import LinuxCpp.Ustack.SendSpace
import LinuxCpp.Ustack.Out
import LinuxCpp.Ustack.Stored
import LinuxCpp.C.Bytes
import LinuxCpp.Ustack.Frame
import LinuxCpp.Ustack.TcpCodec
import LinuxCpp.C.Avoids
import LinuxCpp.Ustack.PktProcess
import LinuxCpp.Ustack.FrameBounds
import LinuxCpp.Ustack.Treatment
import LinuxCpp.Ustack.Udp
import LinuxCpp.Ustack.Mbufs
import LinuxCpp.Ustack.Ownership
import LinuxCpp.Ustack.Demux
import LinuxCpp.Ustack.Buffers
import LinuxCpp.C.Block
import LinuxCpp.Websocket.Packet
import LinuxCpp.Websocket.Echo
import LinuxCpp.Coroutine.Scheduler
import LinuxCpp.Coroutine.Queue
import LinuxCpp.Coroutine.Receives
import LinuxCpp.Coroutine.Pass
import LinuxCpp.Coroutine.Rounds
import LinuxCpp.Linked.Segment
import LinuxCpp.ThreadPool.Threadpool
import LinuxCpp.ThreadPool.Delivery
import LinuxCpp.Trace.Lending
import LinuxCpp.Mysql.ConnectPool
import LinuxCpp.Mysql.Accounting
import LinuxCpp.Skiptable.Correctness
import LinuxCpp.Linked.Doubly
import LinuxCpp.AddressBook.RoundTrip
import LinuxCpp.Websocket.Greeting
import LinuxCpp.C.OnesComplement
import LinuxCpp.Ustack.Checksum
import LinuxCpp.Ustack.UdpBounds
import LinuxCpp.C.Blind
import LinuxCpp.Ustack.Producers
import LinuxCpp.Ustack.WireFields
import LinuxCpp.Ustack.ShortRead
import LinuxCpp.Ustack.BadHeaders
import LinuxCpp.Kvstore.MissingArgs
import LinuxCpp.C.Tokens
import LinuxCpp.Kvstore.Tokenizer
import LinuxCpp.Ustack.EndOfStream
import LinuxCpp.Ustack.FdTable
import LinuxCpp.Websocket.OwnFrames
import LinuxCpp.Websocket.Received
import LinuxCpp.Websocket.HandsharkAt
import LinuxCpp.Coroutine.Contexts
import LinuxCpp.Net.UringEcho
import LinuxCpp.ThreadPool.Shutdown
import LinuxCpp.AddressBook.Count
import LinuxCpp.AddressBook.Flat
import LinuxCpp.Dns.Question
import LinuxCpp.Dns.Sent
import LinuxCpp.RedBlack.DeleteRepair
import LinuxCpp.Kvstore.RbtreeDeleteFixup
import LinuxCpp.Scan.Runs
import LinuxCpp.Countword.Count
import LinuxCpp.Scan.Tally
import LinuxCpp.Countword.CountEachWord
import LinuxCpp.C.Decimal
import LinuxCpp.Kvstore.Engines
import LinuxCpp.Kvstore.Testcase
import LinuxCpp.Net.Handled
import LinuxCpp.Net.KvsServer
import LinuxCpp.Ntyco.Schedule
import LinuxCpp.Ntyco.Invariant
import LinuxCpp.Ntyco.Moves
import LinuxCpp.Ntyco.Safety
import LinuxCpp.Ntyco.Runs
import LinuxCpp.Ntyco.Rounds
import LinuxCpp.Trace.Descent
import LinuxCpp.Ustack.EchoServer
import LinuxCpp.Ustack.Visit
import LinuxCpp.Ustack.Sessions
import LinuxCpp.Ustack.Stages
import LinuxCpp.Ustack.Served
import LinuxCpp.RedBlack.Height
import LinuxCpp.Kvstore.RbtreeTraversal
import LinuxCpp.Ustack.ArpTable
import LinuxCpp.Ustack.Replies
import LinuxCpp.Dns.Async
import LinuxCpp.Dns.AsyncRuns
import LinuxCpp.Trace.Balance
import LinuxCpp.Mysql.Shutdown
import LinuxCpp.Skiptable.Display
import LinuxCpp.AddressBook.Traversal
