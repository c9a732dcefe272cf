import KongGateway.GatewayCore.Proxy.Recovery
import KongGateway.GatewayCore.Resilience.OpenPeriod
import KongGateway.GatewayCore.Proxy.Authority
import KongGateway.GatewayCore.RateLimit.Rejection
import KongGateway.GatewayCore.RateLimit.Isolation
import KongGateway.GatewayCore.Security.Access
import KongGateway.GatewayCore.Shutdown
import KongGateway.Kong.Router.Atc.Rebuild
import KongGateway.Kong.Router.Traditional.Category
import KongGateway.Kong.Router.Traditional.Cache
import KongGateway.Kong.Router.Traditional.Priority
import KongGateway.Kong.Db.DaoHooks
import KongGateway.Kong.Router.Transform.Split
import KongGateway.Kong.Tools.Queue.Assertions
import KongGateway.Kong.Clustering.Sync.Versions
import KongGateway.Kong.Tools.Uri.Escape
import KongGateway.Kong.Router.UpstreamUri
import KongGateway.Kong.Router.Expressions.Reader
import KongGateway.Kong.Balancers.Stability
import KongGateway.Kong.Balancers.RoundRobin
import KongGateway.Kong.Balancers.LeastConnections
import KongGateway.Kong.Clustering.Rpc.Responses
import KongGateway.Kong.Clustering.Rpc.Concentrator
import KongGateway.Kong.Clustering.Rpc.Registry
import KongGateway.Kong.Clustering.Rpc.Answers
import KongGateway.Kong.Clustering.Sync.Announce
import KongGateway.Kong.Db.Off.Lookup
import KongGateway.Kong.Db.Schema.GeneratedIds
import KongGateway.Kong.Clustering.ConfigHash
import KongGateway.Kong.Plugins.RedisConnections
import KongGateway.Kong.Plugins.RateLimiting.Windows
import KongGateway.Kong.Plugins.RateLimiting.Expiration
import KongGateway.Kong.Db.Schema.Update
import KongGateway.Kong.Db.Schema.Immutable
import KongGateway.Kong.ClusterEvents.Marks
import KongGateway.GatewayCore.Resilience.Probes
import KongGateway.GatewayCore.RateLimit.FixedWindow
import KongGateway.GatewayCore.Proxy.Retries
import KongGateway.GatewayCore.Proxy.Framing
import KongGateway.GatewayCore.Proxy.PathRewrite
import KongGateway.GatewayCore.Proxy.HealthChecks
import KongGateway.GatewayCore.Plugin.Phases
import KongGateway.GatewayCore.Proxy.RequestCounter
import KongGateway.GatewayCore.Proxy.Handler
import KongGateway.Kong.Plugins.ProxyCache.Arguments
import KongGateway.Kong.Tools.Queue.Refusal
import KongGateway.Kong.Plugins.ProxyCache.Freshness
import KongGateway.Kong.Tools.Ip.Ipv6
import KongGateway.Kong.Tools.Ip.Canonical
import KongGateway.Kong.Tools.Utf8
import KongGateway.Kong.Plugins.LdapAuth.Framing
import KongGateway.Kong.Tools.AwsStream.Chunks
import KongGateway.Kong.Tracing.Totality
import KongGateway.Kong.Runloop.PluginsIterator.Selection
import KongGateway.Kong.Clustering.Sync.References
import KongGateway.Kong.Db.Schema.Passes
import KongGateway.GatewayCore.Balancer.Window
import KongGateway.Kong.Router.Expressions.Literals
import KongGateway.Kong.Dns.RoundRobin
import KongGateway.Kong.Clustering.Compat.Version
import KongGateway.Kong.Db.Schema.TopologicalSort
import KongGateway.Kong.Db.CacheKey
import KongGateway.Kong.Llm.JsonStream
import KongGateway.Kong.Dns.Client
