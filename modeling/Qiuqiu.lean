import Qiuqiu.Skiplist.Model
import Qiuqiu.Base.LevelChain
import Qiuqiu.Skiplist.Invariant
import Qiuqiu.Skiplist.Layout
import Qiuqiu.Skiplist.Search
import Qiuqiu.Skiplist.Insert
import Qiuqiu.Skiplist.Delete
import Qiuqiu.Skiplist.Runs
import Qiuqiu.Base.FifoLock
import Qiuqiu.Queue.Model
import Qiuqiu.Queue.Refinement
import Qiuqiu.Queue.Owner
import Qiuqiu.Database.Cache
import Qiuqiu.Database.Requests
import Qiuqiu.Database.Save
import Qiuqiu.Base.WriteBack
import Qiuqiu.Database.ModuleRuns
import Qiuqiu.Database.SaveCopies
import Qiuqiu.Database.Shutdown
import Qiuqiu.Database.SaveCycle
import Qiuqiu.Database.Bracket
import Qiuqiu.Database.Profile
import Qiuqiu.Base.Holders
import Qiuqiu.Database.Records
import Qiuqiu.Database.Routing
import Qiuqiu.Base.Runs
import Qiuqiu.Database.Fallback
import Qiuqiu.Timer.Stimer
import Qiuqiu.Timer.Orphans
import Qiuqiu.Base.Schedule
import Qiuqiu.Timer.Firing
import Qiuqiu.Timer.Client
import Qiuqiu.Timer.Removal
import Qiuqiu.Agent.Scene
import Qiuqiu.Cluster.Cross
import Qiuqiu.Cluster.Accepts
import Qiuqiu.Cluster.Handshake
import Qiuqiu.Cluster.Sender
import Qiuqiu.Cluster.Heartbeat
import Qiuqiu.Server.Svccpu
import Qiuqiu.Agentmgr.Players
import Qiuqiu.Agentmgr.Lockout
import Qiuqiu.Agentmgr.Shutdown
import Qiuqiu.Logind.Master
import Qiuqiu.Logind.Online
import Qiuqiu.Logind.Gates
import Qiuqiu.Logind.Accept
import Qiuqiu.Rpc.Listeners
import Qiuqiu.Rpc.Dispatch
import Qiuqiu.Base.Outcome
import Qiuqiu.Base.Triple
import Qiuqiu.Rpc.ModCall
import Qiuqiu.Rpc.Refused
import Qiuqiu.Base.Digits
import Qiuqiu.Snowflake.CreateId
import Qiuqiu.Snowflake.Lock
import Qiuqiu.Base.Assoc
import Qiuqiu.Skiplist.Ranks
import Qiuqiu.Skiplist.Queries
import Qiuqiu.Rank.Model
import Qiuqiu.Rank.Contract
import Qiuqiu.Save.Split
import Qiuqiu.Save.Divide
import Qiuqiu.Rank.SaveRegister
import Qiuqiu.ModuleDb.Model
import Qiuqiu.ModuleDb.Restore
import Qiuqiu.ModuleDb.Cycle
import Qiuqiu.Base.Find
import Qiuqiu.Base.Loop
import Qiuqiu.Nodeinfo.Model
import Qiuqiu.Nodeinfo.Merged
import Qiuqiu.Nodeinfo.Cross
import Qiuqiu.Exclass.Update
import Qiuqiu.Exclass.Events
import Qiuqiu.Dbalter.Columns
import Qiuqiu.Dbalter.Role
import Qiuqiu.Dbalter.Log
import Qiuqiu.Cluster.Pointers
import Qiuqiu.Database.Ownership
import Qiuqiu.Database.CloseAll
import Qiuqiu.Snowflake.Encoding
import Qiuqiu.Rank.Modify
import Qiuqiu.Base.Ledger
import Qiuqiu.Database.Buffers
import Qiuqiu.Database.Flush
import Qiuqiu.Rpc.Proxysvr
import Qiuqiu.Rpc.Answers
import Qiuqiu.Skiplist.Length
import Qiuqiu.Base.While
import Qiuqiu.Database.Hash
import Qiuqiu.Exclass.Objects
import Qiuqiu.Base.Bytes
import Qiuqiu.Base.Pattern
import Qiuqiu.Text.MsgPack
import Qiuqiu.Text.GenFile
import Qiuqiu.Nodeinfo.Reports
import Qiuqiu.Base.Calendar
import Qiuqiu.Dbalter.Partitions
import Qiuqiu.Extend.Import
import Qiuqiu.Extend.ImportOnce
import Qiuqiu.Extend.Deepcopy
import Qiuqiu.Text.Reader
import Qiuqiu.Text.Dumptree
import Qiuqiu.Base.Filesystem
import Qiuqiu.Extend.Posix
import Qiuqiu.Base.Buckets
import Qiuqiu.Server.TimerWheel
import Qiuqiu.Server.Timeouts
import Qiuqiu.Base.Ring
import Qiuqiu.Server.Mq
import Qiuqiu.Server.Dispatch
import Qiuqiu.Server.Ownership
import Qiuqiu.Server.Delivery
import Qiuqiu.Server.Callback
import Qiuqiu.Base.Bisect
import Qiuqiu.Server.Handle
import Qiuqiu.Server.HandleTable
import Qiuqiu.Base.Framing
import Qiuqiu.Net.Netpack
import Qiuqiu.Net.Streams
import Qiuqiu.Net.Gateserver
import Qiuqiu.Net.Gate
import Qiuqiu.Base.Overtaking
import Qiuqiu.Net.Clusterpack
import Qiuqiu.Net.Clusterwire
import Qiuqiu.Net.Clusteragent
import Qiuqiu.Net.Clusterrequests
import Qiuqiu.Net.Clusterresponses
import Qiuqiu.Base.LittleEndian
import Qiuqiu.Net.Seri
import Qiuqiu.Net.SeriStream
import Qiuqiu.Net.SeriValues
import Qiuqiu.Net.SeriTables
import Qiuqiu.Server.Rwlock
