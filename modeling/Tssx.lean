import Tssx.Buffer.Transfer
import Tssx.Lib.Run
import Tssx.Lib.Ring
import Tssx.Buffer.Safety
import Tssx.Connection
import Tssx.Connection.Disconnect
import Tssx.Connection.Sides
import Tssx.Connection.HangUp
import Tssx.Bridge
import Tssx.Bridge.Processes
import Tssx.Epoll.Edge
import Tssx.Vector
import Tssx.Epoll.Instance
import Tssx.Epoll.Lifetime
import Tssx.ConcurrentWait
import Tssx.ConcurrentWait.Invariant
import Tssx.Poll
import Tssx.Epoll.Wait
import Tssx.ConcurrentWait.Outcome
import Tssx.Epoll.Scan
import Tssx.ConcurrentWait.WakeUp
import Tssx.Epoll.Bounds
import Tssx.Lib.Bytes
import Tssx.Handshake
import Tssx.Handshake.Agreement
import Tssx.Handshake.Failure
import Tssx.Lib.Flags
import Tssx.Connection.Options
import Tssx.Fcntl
import Tssx.Connection.Ready
import Tssx.ConcurrentWait.Disposition
import Tssx.ConcurrentWait.StartUp
import Tssx.ConcurrentWait.Watched
import Tssx.Sockets
import Tssx.Sockets.Transparency
import Tssx.Sockets.Channel
import Tssx.Bridge.Signals
import Tssx.Bridge.Exit
import Tssx.Bridge.Bookkeeping
import Tssx.Connection.Layout
import Tssx.Select
import Tssx.Select.Results
import Tssx.Epoll.Single
import Tssx.Buffer.Fifo
import Tssx.Buffer.Alone
import Tssx.Connection.BlockingWrite
import Tssx.Connection.NonBlocking
import Tssx.Buffer.Peek
import Tssx.Buffer.Skip
import Tssx.Buffer.Timeout
import Tssx.Epoll.OneShot
import Tssx.Epoll.Several
import Tssx.Vector.Contents
import Tssx.Epoll.Contents
import Tssx.Epoll.Registration
import Tssx.Epoll.Rejection
import Tssx.Epoll.Interest
import Tssx.Lib.Merge
import Tssx.Poll.Partition
import Tssx.Poll.Rejoin
import Tssx.Poll.Ready
import Tssx.Poll.Results
import Tssx.Poll.Transparency
import Tssx.Select.ByPoll
import Tssx.Select.Fast
import Tssx.Clock
import Tssx.HashTable
import Tssx.HashTable.Map
import Tssx.StringSet
import Tssx.StringSet.Members
import Tssx.TableResizes
import Tssx.Lib.Words
import Tssx.Selective
import Tssx.Selective.Tokens
import Tssx.Selective.Usage
import Tssx.Vector.Block
import Tssx.Vector.Refinement
import Tssx.Vector.Failure
import Tssx.Vector.NoShrink
import Tssx.Lib.Heap
import Tssx.Vector.Stored
import Tssx.Vector.Copies
import Tssx.FreeList
import Tssx.Vector.Separation
import Tssx.Lib.Sentinel
import Tssx.ReverseMap
import Tssx.Connection.Memory
import Tssx.Connection.Accesses
import Tssx.Connection.Refinement
import Tssx.Connection.Progress
import Tssx.Connection.Stuck
import Tssx.Experiment.PingPong
import Tssx.Epoll.Agreement
import Tssx.Bridge.Deaths
import Tssx.ConcurrentWait.Masked
import Tssx.Handshake.Life
import Tssx.Connection.Users
import Tssx.Handshake.Hang
import Tssx.Handshake.OneSided
import Tssx.ConcurrentWait.Ends
