import VeilFabric.Core.History
import VeilFabric.Core.Entries
import VeilFabric.Core.Identity
import VeilFabric.Routing.Collusion
import VeilFabric.Routing.Uniformity
import VeilFabric.Routing.Discovery
import VeilFabric.Routing.DummyTraffic
import VeilFabric.Routing.TopologyFile
import VeilFabric.Relay.Node
import VeilFabric.Relay.Framing
import VeilFabric.Relay.Circulation
import VeilFabric.Relay.PoolProgress
import VeilFabric.Relay.PullFailure
import VeilFabric.Relay.Server
import VeilFabric.Sdk.Recipients
import VeilFabric.Sdk.Traffic
import VeilFabric.Sdk.CoverRun
import VeilFabric.Sdk.Dummies
import VeilFabric.Sdk.Senders
import VeilFabric.Sdk.Delivery
import VeilFabric.Sdk.Bootstrap
import VeilFabric.Cli.Demo
