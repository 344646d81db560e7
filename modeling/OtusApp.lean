import OtusApp.Lib.System
import OtusApp.Consumer.Group
import OtusApp.Coord.Watch
import OtusApp.Resilience.Breaker
import OtusApp.Outbox.Replicas
import OtusApp.Outbox.Run
import OtusApp.Storage.Database
import OtusApp.Laws.Security.Keys
import OtusApp.Laws.Security.Trust
import OtusApp.Laws.Storage.Tables
import OtusApp.Laws.Storage.Consistency
import OtusApp.Laws.Storage.Runs
import OtusApp.Laws.Storage.Search
import OtusApp.Laws.Storage.Transactional
import OtusApp.Laws.Storage.Idempotency
import OtusApp.Laws.Storage.Lease
import OtusApp.Laws.Storage.Delivered
import OtusApp.Laws.Hdfsstore.Names
import OtusApp.Laws.Hdfsstore.Put
import OtusApp.Laws.Outbox.Delivery
import OtusApp.Laws.Outbox.Run
import OtusApp.Laws.Outbox.Worker
import OtusApp.Laws.Consumer.Offsets
import OtusApp.Laws.Coord.Watch
import OtusApp.Laws.Coord.Lock
import OtusApp.Laws.Storage.Migration
import OtusApp.Laws.Resilience.Breaker
import OtusApp.App.Machine
import OtusApp.Laws.App.ListCache
import OtusApp.Lib.Hop
import OtusApp.App.Site
import OtusApp.Chaosproxy.Proxy
import OtusApp.Gateway.Forward
import OtusApp.Laws.App.Site
import OtusApp.Laws.Gateway.Batch
import OtusApp.Laws.Gateway.Listing
import OtusApp.Laws.Gateway.Chat
import OtusApp.Laws.Gateway.RepeatSafe
import OtusApp.Consumer.Handle
import OtusApp.Laws.Consumer.Projections
import OtusApp.Laws.Consumer.Reader
import OtusApp.Ratelimit.Middleware
import OtusApp.Laws.Ratelimit.Window
import OtusApp.Laws.Ratelimit.Identity
import OtusApp.Blobstore.Store
import OtusApp.Go.Path
import OtusApp.Hdfsstore.Store
import OtusApp.Handlers.Storage
import OtusApp.App.Files
import OtusApp.Lib.Apart
import OtusApp.Laws.App.Files
import OtusApp.Laws.App.FileIndex
import OtusApp.App.Api
import OtusApp.Laws.App.Access
import OtusApp.Gateway.Grpc
import OtusApp.Lib.Lockstep
import OtusApp.App.Commands
import OtusApp.Laws.App.Commands
import OtusApp.Lib.Protocol
import OtusApp.Laws.App.Effects
import OtusApp.Laws.App.Ranges
import OtusApp.Laws.Resilience.Policy
import OtusApp.Resilience.Http
import OtusApp.Laws.Resilience.Callers
import OtusApp.Laws.Resilience.Http
import OtusApp.Laws.Resilience.QuietPeriod
import OtusApp.Laws.App.Staleness
import OtusApp.Go.Client
import OtusApp.Chaosproxy.Http
import OtusApp.Laws.Chaosproxy.Transparent
import OtusApp.Laws.Resilience.Retry
import OtusApp.Laws.App.Tags
import OtusApp.Laws.App.Versions
import OtusApp.Laws.App.Lifecycle
import OtusApp.Laws.Cstore.Cluster
import OtusApp.Laws.Broker.RabbitConn
import OtusApp.Laws.Broker.Rabbit
import OtusApp.Laws.Broker.Nats
import OtusApp.Laws.Outbox.Publishing
import OtusApp.Laws.Outbox.Backlog
import OtusApp.Laws.Pipeline.Delivered
import OtusApp.Blobstore.Startup
import OtusApp.Laws.Blobstore.Startup
import OtusApp.Laws.Search.Startup
