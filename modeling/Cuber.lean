import Cuber.Core.Execution
import Cuber.Core.Loop
import Cuber.Core.Maps
import Cuber.Core.Runs
import Cuber.Core.Refinement
import Cuber.Core.Memory
import Cuber.Core.OrderedSets
import Cuber.Core.Backlog
import Cuber.Core.PathWalk
import Cuber.Core.Monitor
import Cuber.Core.Calendar
import Cuber.Base.Text
import Cuber.Base.LogStream
import Cuber.Base.LogInsertion
import Cuber.Base.AsyncLogging
import Cuber.Base.LoggingShutdown
import Cuber.Base.LogFile
import Cuber.Base.Date
import Cuber.Base.TimeZone
import Cuber.Base.BlockingQueue
import Cuber.Base.ThreadPool
import Cuber.Net.Buffer
import Cuber.Net.BufferStorage
import Cuber.Http.Headers
import Cuber.Http.Request
import Cuber.Http.Context
import Cuber.Http.Chunking
import Cuber.Http.Grammar
import Cuber.Http.KeepAlive
import Cuber.Http.Acceptance
import Cuber.Http.Response
import Cuber.Http.ResponseContext
import Cuber.Http.UpstreamAnswer
import Cuber.Http.RoundTrip
import Cuber.Http.Delimiting
import Cuber.Base.FileUtil
import Cuber.Config.ServerConfig
import Cuber.Config.Loading
import Cuber.Config.Merging
import Cuber.Config.Independence
import Cuber.Net.ConnectionNames
import Cuber.Net.TcpConnection
import Cuber.Net.OutputCallbacks
import Cuber.Net.Connector
import Cuber.Net.TimerQueue
import Cuber.Net.TimerConsistency
import Cuber.Net.TimerRuns
import Cuber.Net.EventLoop
import Cuber.Net.Pollers
import Cuber.Net.ActiveChannels
import Cuber.Net.Iterations
import Cuber.Http.LocationSearch
import Cuber.Http.Handler
import Cuber.Http.Filter
import Cuber.Http.LoggingFilter
import Cuber.Http.Server
import Cuber.Http.StaticSearch
import Cuber.Http.Confinement
import Cuber.Http.StaticContent
import Cuber.Http.Timer
import Cuber.Server.PostBody
import Cuber.Server.Outcome
import Cuber.Server.Forwarding
import Cuber.Server.Answers
import Cuber.Server.Delivery
import Cuber.Server.RelayedHeaders
import Cuber.Server.ClientAddress
import Cuber.Server.Pipelining
import Cuber.Server.Proxying
import Cuber.Server.Relay
import Cuber.Server.Correlation
import Cuber.Server.Malformed
import Cuber.Server.Routing
import Cuber.Server.Isolation
import Cuber.Server.Accounting
import Cuber.Server.HeadRequests
import Cuber.Server.UpstreamAddresses
import Cuber.Server.Retries
