import HeadFwd.Crypto.Primitives
import HeadFwd.Document.Convert
import HeadFwd.Document.Marshal
import HeadFwd.Document.Value
import HeadFwd.EndToEnd.Agreement
import HeadFwd.EndToEnd.Backends
import HeadFwd.EndToEnd.Bodies
import HeadFwd.EndToEnd.Codecs
import HeadFwd.EndToEnd.Documents
import HeadFwd.EndToEnd.Fingerprints
import HeadFwd.EndToEnd.Framing
import HeadFwd.EndToEnd.Headers
import HeadFwd.EndToEnd.Recovery
import HeadFwd.EndToEnd.RoundTrip
import HeadFwd.EndToEnd.Streams
import HeadFwd.EndToEnd.Targets
import HeadFwd.Ios.Interceptor
import HeadFwd.Ios.Nodes
import HeadFwd.Ios.PortalProxy
import HeadFwd.Ios.Service
import HeadFwd.Ios.Verifier
import HeadFwd.Js.Base64
import HeadFwd.Js.Decode
import HeadFwd.Js.Json
import HeadFwd.Js.Url
import HeadFwd.Js.Value
import HeadFwd.Net.Address
import HeadFwd.Net.Head
import HeadFwd.Net.Http
import HeadFwd.Net.Response
import HeadFwd.Net.Target
import HeadFwd.Net.Url
import HeadFwd.Portal.Bootstrap
import HeadFwd.Portal.Crash
import HeadFwd.Portal.Gate
import HeadFwd.Portal.Local
import HeadFwd.Portal.Me
import HeadFwd.Portal.Oldest
import HeadFwd.Portal.Replicas
import HeadFwd.Portal.Store
import HeadFwd.Portal.Upstream
import HeadFwd.Portal.Users
import HeadFwd.Rate.Bucket
import HeadFwd.Relay.Attempts
import HeadFwd.Relay.Credentials
import HeadFwd.Relay.Crypto
import HeadFwd.Relay.Delivery
import HeadFwd.Relay.Exchange
import HeadFwd.Relay.Host
import HeadFwd.Relay.InFlight
import HeadFwd.Relay.Inbound
import HeadFwd.Relay.Isolation
import HeadFwd.Relay.Liveness
import HeadFwd.Relay.Outbound
import HeadFwd.Relay.Provenance
import HeadFwd.Relay.RateLimit
import HeadFwd.Relay.Reconnect
import HeadFwd.Relay.Refusal
import HeadFwd.Relay.Registry
import HeadFwd.Relay.Restart
import HeadFwd.Relay.Server
import HeadFwd.Relay.SingleUse
import HeadFwd.Relay.Streams
import HeadFwd.Relay.Superseded
import HeadFwd.Relay.Teardown
import HeadFwd.Relay.Traffic
import HeadFwd.Relay.Tunnels
import HeadFwd.Relay.Vector
import HeadFwd.Sidecar.Config
import HeadFwd.Sidecar.Crypto
import HeadFwd.Sidecar.DockerExec
import HeadFwd.Sidecar.Forward
import HeadFwd.Sidecar.Inbound
import HeadFwd.Sidecar.Opening
import HeadFwd.Sidecar.Outbound
import HeadFwd.Sidecar.Panic
import HeadFwd.Sidecar.Process
import HeadFwd.Sidecar.Register
import HeadFwd.Sidecar.Streams
import HeadFwd.Text.Base64
import HeadFwd.Text.Bytes
import HeadFwd.Text.Frames
import HeadFwd.Text.Json
import HeadFwd.Text.Search
import HeadFwd.Text.Timestamp
import HeadFwd.Text.Utf8
import HeadFwd.Transition.Basic
import HeadFwd.Transition.Stage
import HeadFwd.Transition.Table
import HeadFwd.Transition.Versions
import HeadFwd.Tunnel.Encoding
import HeadFwd.Tunnel.Message
import HeadFwd.Tunnel.Streams
import HeadFwd.Worker.Clients
import HeadFwd.Worker.Reconnect
import HeadFwd.Worker.Registration
import HeadFwd.Worker.Routing
import HeadFwd.Worker.Settled
import HeadFwd.Worker.Soundness
import HeadFwd.Worker.Tunnel
