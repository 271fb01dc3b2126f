import FactCast.Machine.Run
import FactCast.Machine.Log
import FactCast.Json.Parser
import FactCast.Json.Splice
import FactCast.Core.Spec
import FactCast.Store.Query
import FactCast.Store.QueryMeaning
import FactCast.Server.Access
import FactCast.Store.Filter
import FactCast.Store.FactStore
import FactCast.Store.Publish
import FactCast.Store.Stream
import FactCast.Store.StreamOrder
import FactCast.Store.FastForward
import FactCast.Client.Resilience
import FactCast.Client.Retry
import FactCast.Client.Reconnect
import FactCast.Server.Transport
import FactCast.Server.OnCancelHandler
import FactCast.Client.ReconnectOrder
import FactCast.Client.StaleConnection
import FactCast.Store.DateSerial
import FactCast.Store.Notification
import FactCast.Factus.Locked
import FactCast.Factus.Serializable
import FactCast.Core.Position
import FactCast.Core.OptimisticLock
import FactCast.Store.Pipeline
import FactCast.Store.PipelineOrder
import FactCast.Store.RequestedVersions
import FactCast.Factus.Projector
import FactCast.Factus.Dispatch
import FactCast.Factus.HandlerMethod
import FactCast.Factus.SpecCopies
import FactCast.Factus.DeclaredFilters
import FactCast.Factus.Apply
import FactCast.Factus.Atomic
import FactCast.Factus.Journal
import FactCast.Factus.Observer
import FactCast.Factus.ObserverOrder
import FactCast.Factus.Fetch
import FactCast.Factus.FetchReplay
import FactCast.Factus.SnapshotCache
import FactCast.Factus.SnapshotOrigin
import FactCast.Machine.History
import FactCast.Client.Control
import FactCast.Client.Recovery
import FactCast.Machine.Route
import FactCast.Store.TransformationChains
import FactCast.Store.BatchTransformation
import FactCast.Store.Invalidation
import FactCast.Store.Registry
import FactCast.Store.RegistryCaches
import FactCast.Machine.Fair
import FactCast.Store.CondensedQuery
import FactCast.Store.FollowErrors
import FactCast.Store.CloseStream
import FactCast.Core.Subscription
import FactCast.Client.IgnoreDuplicates
import FactCast.Machine.Transaction
import FactCast.Store.PublishTransaction
import FactCast.Wire.Protobuf
import FactCast.Server.BatchSize
import FactCast.Machine.ReentrantLock
import FactCast.Factus.WriterToken
import FactCast.Sql.Rows
import FactCast.Store.TransformationStores
import FactCast.Store.SchemaStores
import FactCast.Factus.JdbcSnapshot
import FactCast.Json.Document
import FactCast.Store.ReadBack
import FactCast.Machine.Neighbours
import FactCast.Cli.Validation
import FactCast.Cli.Accepted
import FactCast.Cli.IndexFile
import FactCast.Machine.HashSet
import FactCast.Store.Blacklist
import FactCast.Factus.AggregateLock
import FactCast.Wire.ExceptionTransport
import FactCast.Factus.DiskRepository
import FactCast.Factus.DiskSnapshotCoherence
import FactCast.Json.Text
import FactCast.Client.FromNowOn
import FactCast.Store.PublishTriggers
import FactCast.Wire.DataStream
import FactCast.Factus.SnapshotDataCodec
import FactCast.Core.DefaultFact
import FactCast.Cli.Structure
import FactCast.Cli.FilterJson
import FactCast.Machine.Ranking
import FactCast.Store.TailIndex
import FactCast.Client.TimedWait
import FactCast.Client.RetryBudget
import FactCast.Server.FactSource
import FactCast.Store.CompositeScript
import FactCast.Factus.SubscribeAndBlock
import FactCast.Wire.Fields
import FactCast.Wire.Codec
import FactCast.Wire.Messages
import FactCast.Wire.ProtoConverter
import FactCast.Server.NotificationStream
import FactCast.Server.FactStoreGrpcService
import FactCast.Machine.Lockstep
import FactCast.Client.Calls
import FactCast.Client.RemoteStore
import FactCast.Machine.LeadsTo
import FactCast.Store.StreamSignals
import FactCast.Server.SubscriptionDelivery
import FactCast.Store.StreamNext
import FactCast.Store.FollowMode
import FactCast.Store.FollowProgress
import FactCast.Server.BlockingStreamObserver
import FactCast.Store.FactValidation
