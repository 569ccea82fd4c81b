import Entitle.Backend
import Entitle.Cache.Conditional
import Entitle.Cache.Entry
import Entitle.Classify
import Entitle.Client.Basic
import Entitle.Client.Endpoint
import Entitle.Client.Session
import Entitle.Client.Traffic
import Entitle.CommandLine.Arguments
import Entitle.CommandLine.Failure
import Entitle.CommandLine.Host
import Entitle.CommandLine.Run
import Entitle.Config.Basic
import Entitle.Config.Environment
import Entitle.Config.Fault
import Entitle.Config.File
import Entitle.Config.Source
import Entitle.Config.Validation
import Entitle.Decimal.Scaled
import Entitle.Decimal.Shortest
import Entitle.FileTree
import Entitle.Flight.Coalescer
import Entitle.Flight.Dispatcher
import Entitle.Flight.Pool
import Entitle.Flight.Registry
import Entitle.Flight.Relay
import Entitle.Flight.Script
import Entitle.Flight.Timeline
import Entitle.Gateway
import Entitle.Http.Exchange
import Entitle.Http.Message
import Entitle.Http.Server
import Entitle.Http.Status
import Entitle.Http.Url
import Entitle.Http.Wire
import Entitle.Json.Basic
import Entitle.Json.Fault
import Entitle.Json.Number
import Entitle.Json.Outline
import Entitle.Json.Reader
import Entitle.Json.Shape
import Entitle.Json.Stored
import Entitle.Json.Token
import Entitle.Json.Writer
import Entitle.KeyMap
import Entitle.Ledger
import Entitle.Main
import Entitle.RequestError
import Entitle.Requests
import Entitle.Responses
import Entitle.Signature
import Entitle.Store.Basic
import Entitle.Store.Entry
import Entitle.Store.Files
import Entitle.Store.Memory
import Entitle.Store.Watched
import Entitle.Table
import Entitle.Text.Base64
import Entitle.Text.Blake3
import Entitle.Text.Blank
import Entitle.Text.Numeral
import Entitle.Text.PercentEncoding
import Entitle.Text.Quoted
import Entitle.Text.Unseen
import Entitle.Text.Utf8
import Entitle.Timestamp.Basic
import Entitle.Timestamp.Calendar
import Entitle.Timestamp.Reader
import Entitle.Toml.Basic
import Entitle.Toml.Document
import Entitle.Toml.Number
import Entitle.Toml.Text
import Entitle.Toml.Value
import Entitle.Proofs.Backend
import Entitle.Proofs.Cache.Conditional
import Entitle.Proofs.Cache.Durable
import Entitle.Proofs.Cache.Entry
import Entitle.Proofs.Cache.Invalidation
import Entitle.Proofs.Cache.Origin
import Entitle.Proofs.Cache.Refresh
import Entitle.Proofs.Cache.Separation
import Entitle.Proofs.Cache.StoredBodies
import Entitle.Proofs.Classify
import Entitle.Proofs.Classify.Rejection
import Entitle.Proofs.Client.Apart
import Entitle.Proofs.Client.Endpoint
import Entitle.Proofs.Client.Knowledge
import Entitle.Proofs.Client.Provenance
import Entitle.Proofs.Client.Sequence
import Entitle.Proofs.Client.Subject
import Entitle.Proofs.Client.Traffic
import Entitle.Proofs.CommandLine.BaseUrl
import Entitle.Proofs.CommandLine.Overload
import Entitle.Proofs.Config.Precedence
import Entitle.Proofs.Config.Setting
import Entitle.Proofs.Config.Validation
import Entitle.Proofs.Flight.Alone
import Entitle.Proofs.Flight.Attendance
import Entitle.Proofs.Flight.Cancellation
import Entitle.Proofs.Flight.Coalescer
import Entitle.Proofs.Flight.Dispatcher
import Entitle.Proofs.Flight.FanOut
import Entitle.Proofs.Flight.Haste
import Entitle.Proofs.Flight.Independence
import Entitle.Proofs.Flight.Permits
import Entitle.Proofs.Flight.Pool
import Entitle.Proofs.Flight.Registry
import Entitle.Proofs.Flight.Relay
import Entitle.Proofs.Flight.Renumbering
import Entitle.Proofs.Flight.Stale
import Entitle.Proofs.Gateway
import Entitle.Proofs.Gateway.Backend
import Entitle.Proofs.Json.Canonical
import Entitle.Proofs.Json.Cell
import Entitle.Proofs.Json.Equality
import Entitle.Proofs.Json.Outline
import Entitle.Proofs.Json.Place
import Entitle.Proofs.Json.ReadBack
import Entitle.Proofs.Json.RoundTrip
import Entitle.Proofs.Json.Shape
import Entitle.Proofs.KeyMap
import Entitle.Proofs.Ledger
import Entitle.Proofs.Ledger.History
import Entitle.Proofs.ReceiptUploads
import Entitle.Proofs.Requests
import Entitle.Proofs.Requests.Uncached
import Entitle.Proofs.Requests.Urgency
import Entitle.Proofs.Responses.Cells
import Entitle.Proofs.Responses.Lenient
import Entitle.Proofs.Responses.Parts
import Entitle.Proofs.Responses.RoundTrip
import Entitle.Proofs.Restart
import Entitle.Proofs.Revalidation
import Entitle.Proofs.SharedStore
import Entitle.Proofs.Signature
import Entitle.Proofs.SingleFlight
import Entitle.Proofs.Store
import Entitle.Proofs.Store.Entry
import Entitle.Proofs.Store.Files
import Entitle.Proofs.Store.Persisted
import Entitle.Proofs.Store.Refinement
import Entitle.Proofs.Text.Encoding
import Entitle.Proofs.Text.Numeral
import Entitle.Proofs.Text.Utf8
import Entitle.Proofs.Timestamp.Calendar
import Entitle.Proofs.Timestamp.RoundTrip
import Entitle.Proofs.Timestamp.Zones
