import Land.Lib.Transition
import Land.Lib.SequencedRing
import Land.Lib.ParityWindow
import Land.Channel.RingBuffer
import Land.Mpsc.Shared
import Land.Mpsc.Bitmap
import Land.Mpsc.Program
import Land.Mpsc.Invariant
import Land.Mpsc.Delivery
import Land.Mpsc.Availability
import Land.Channel.WaitStrategy
import Land.Spsc.Program
import Land.Spsc.Delivery
import Land.Spsc.Disconnect
import Land.Leader.Buffer
import Land.Leader.Schedule
import Land.Leader.Tracker
import Land.Server.Connection
import Land.Server.Invariant
import Land.Server.Routing
import Land.Server.Deadlock
import Land.Lib.CountedRing
import Land.Quic.TransactionQueue
import Land.Quic.Connection
import Land.Quic.Pool
import Land.Quic.Endpoint
import Land.Quic.NoLoss
import Land.Session.Cache
import Land.Session.History
import Land.Session.Concurrent
import Land.Session.Isolation
import Land.Session.Alone
import Land.Leader.Startup
import Land.Leader.Refresh
import Land.Leader.Rollover
import Land.Mpsc.Disconnect
import Land.Spsc.Report
import Land.Channel.Disconnect
import Land.Mpsc.Teardown
import Land.Spsc.InPlace
import Land.Lib.Versioned
import Land.Quic.SharedQueue
import Land.Sync.SeqLock
import Land.Leader.Words
import Land.Leader.Snapshot
import Land.Http.Framing
import Land.Lib.Base64
import Land.Lib.Json
import Land.Lib.Str
import Land.Server.Http
import Land.Server.Request
import Land.Client.Request
import Land.Client.Response
import Land.Server.Receive
import Land.Server.Echo
import Land.Http.ContentLength
import Land.Server.BodyLength
import Land.Lib.Cut
import Land.Server.KeepAlive
import Land.Server.Segmentation
import Land.Client.Connection
import Land.Client.Pairing
import Land.Lib.Sampling
import Land.Quic.Scheduled
import Land.Quic.Prewarm
import Land.Lib.OpenAddressing
import Land.Quic.Unique
import Land.Quic.Drain
import Land.Quic.FullySent
import Land.Mpsc.WordScan
import Land.Quic.Lookup
import Land.Server.Base64
import Land.Server.Incremental
import Land.Leader.Fetcher
import Land.Lib.Rank
import Land.Timing.Histogram
import Land.Timing.Percentile
import Land.Quic.Lookahead
import Land.Timing.Concurrent
import Land.Leader.Advertised
import Land.Quic.Eviction
import Land.Lib.BaseFraming
import Land.Lib.Lossy
import Land.Pubsub.WebSocket
import Land.Lib.Gregorian
import Land.Server.Date
import Land.Lib.Digits
import Land.Quic.Base58
import Land.Http.Checked
import Land.Server.Total
import Land.Client.Total
import Land.Quic.IoUring
import Land.Client.Receive
import Land.Mpsc.Batch
import Land.Lib.SlotTable
import Land.Server.Table
import Land.Channel.WaitFor
import Land.Quic.LookaheadTotal
import Land.Lib.Refinement
import Land.Lib.BoundedQueue
import Land.Spsc.Queue
import Land.Spsc.Available
import Land.Lib.LossyFeed
import Land.Lib.JsonSearch
import Land.Pubsub.Notification
import Land.Pubsub.Stream
import Land.Pubsub.Subscriber
import Land.Pubsub.Socket
import Land.Pubsub.Delivery
import Land.Lib.TicketQueue
import Land.Mpsc.Queue
import Land.Mpsc.Contention
import Land.Server.Dispatch
import Land.Client.Confirmed
import Land.Lib.GetOrCreate
import Land.Quic.Registry
