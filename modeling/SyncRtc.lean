import SyncRtc.Lib.Prog
import SyncRtc.Lib.Collection
import SyncRtc.Protocol
import SyncRtc.Realtime.Server
import SyncRtc.Realtime.Common
import SyncRtc.Realtime.Join
import SyncRtc.Realtime.Lifecycle
import SyncRtc.Realtime.Reconnect
import SyncRtc.Realtime.Chat
import SyncRtc.Realtime.Account
import SyncRtc.Realtime.Media
import SyncRtc.Realtime.Dispatch
import SyncRtc.Lib.Transition
import SyncRtc.Realtime.System
import SyncRtc.Laws.Access
import SyncRtc.Laws.Membership
import SyncRtc.Laws.Routing
import SyncRtc.Laws.Recording
import SyncRtc.Laws.Queues
import SyncRtc.Laws.Wiring
import SyncRtc.Laws.Confinement
import SyncRtc.Laws.Fencing
import SyncRtc.Laws.Overtaken
import SyncRtc.Laws.Alone
import SyncRtc.Laws.JoinUndone
import SyncRtc.Laws.LeaveKept
import SyncRtc.Laws.Privacy
import SyncRtc.Laws.Answers
import SyncRtc.Client.ChatController
import SyncRtc.Laws.History
import SyncRtc.Laws.Everyday
import SyncRtc.Laws.AiCalls
import SyncRtc.Net.Frame
import SyncRtc.Net.Session
import SyncRtc.Laws.SendQueue
import SyncRtc.Client.TcpMgr
import SyncRtc.Net.Receive
import SyncRtc.Lib.Incremental
import SyncRtc.Laws.Framing
import SyncRtc.Net.CServer
import SyncRtc.Laws.Wakeups
import SyncRtc.Laws.LinkEpochs
import SyncRtc.Laws.Renegotiation
import SyncRtc.MediaServer.LogicSystem
import SyncRtc.Laws.MediaViews
import SyncRtc.Laws.MediaMesh
import SyncRtc.Laws.MediaHandlers
import SyncRtc.Laws.RtpIsolation
import SyncRtc.Laws.MediaMembers
import SyncRtc.Laws.MediaTidy
import SyncRtc.Laws.MediaLeftovers
import SyncRtc.Lib.Serial
import SyncRtc.Client.AvSyncScheduler
import SyncRtc.Client.VideoEncodeWorker
import SyncRtc.Client.AudioReceivePipeline
import SyncRtc.Laws.Presentation
import SyncRtc.Laws.CaptureTime
import SyncRtc.Laws.AudioClock
import SyncRtc.Lib.Upsert
import SyncRtc.Laws.Pushes
import SyncRtc.Laws.Merging
import SyncRtc.MediaServer.RoomThreadPool
import SyncRtc.Laws.RoomRounds
import SyncRtc.Client.MeetingController
import SyncRtc.Client.RecoveryController
import SyncRtc.Laws.Recovery
import SyncRtc.Lib.Descent
import SyncRtc.Realtime.BusinessScheduler
import SyncRtc.Realtime.LogicSystem
import SyncRtc.Laws.Books
import SyncRtc.Laws.Bookkeeping
import SyncRtc.Laws.Strands
import SyncRtc.Laws.Deadlock
import SyncRtc.Laws.Shutdown
import SyncRtc.Realtime.Scheduling
import SyncRtc.Laws.Commands
import SyncRtc.Laws.Schedulers
import SyncRtc.Laws.InTurn
import SyncRtc.GateServer.HttpConnection
import SyncRtc.Laws.UrlCodec
import SyncRtc.Net.Heartbeat
import SyncRtc.Laws.Liveness
import SyncRtc.Client.Heartbeat
import SyncRtc.Laws.Probes
import SyncRtc.Lib.Wakeup
import SyncRtc.Client.AudioEncodeWorker
import SyncRtc.Laws.Samples
import SyncRtc.Lib.Expiring
import SyncRtc.GateServer.LogicSystem
import SyncRtc.VarifyServer.Server
import SyncRtc.Laws.VarifyCodes
import SyncRtc.MediaServer.Session
import SyncRtc.Laws.SignalQueue
import SyncRtc.Lib.Paging
import SyncRtc.Realtime.MysqlMgr
import SyncRtc.Laws.Saving
import SyncRtc.Laws.Messages
import SyncRtc.Client.RtcTransportWorker
import SyncRtc.Client.VideoThread
import SyncRtc.Laws.Handoff
import SyncRtc.Lib.Pipeline
import SyncRtc.Client.MediaController
import SyncRtc.Laws.Silence
import SyncRtc.Lib.Sweep
import SyncRtc.Net.HeartbeatScan
import SyncRtc.Laws.HeartbeatRounds
import SyncRtc.Laws.Registry
import SyncRtc.Laws.Places
import SyncRtc.Realtime.Process
import SyncRtc.Laws.Threads
import SyncRtc.Laws.Showing
import SyncRtc.Laws.Refinement
import SyncRtc.Laws.Processes
import SyncRtc.Laws.Grounds
import SyncRtc.Laws.Doors
import SyncRtc.Lib.Hosting
import SyncRtc.GateServer.Storage
import SyncRtc.GateServer.Routes
import SyncRtc.Laws.Requests
import SyncRtc.Laws.Accounts
import SyncRtc.Laws.Logins
import SyncRtc.Laws.Contacts
