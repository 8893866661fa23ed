import Volley.Decimal.Binary64
import Volley.Decimal.Digits
import Volley.Decimal.Nearest
import Volley.Files.Path
import Volley.Files.Tree
import Volley.Http.Header
import Volley.Http.Message
import Volley.Http.Post
import Volley.Json.Basic
import Volley.Json.Reader
import Volley.Json.Scan
import Volley.Keyed
import Volley.Log.Directive
import Volley.Log.Event
import Volley.Log.Filter
import Volley.Log.Line
import Volley.Main
import Volley.Metrics
import Volley.Numeral
import Volley.Outcome
import Volley.Plan.Basic
import Volley.Plan.Policy
import Volley.Plan.Setup
import Volley.Proofs.Decimal.Binary64
import Volley.Proofs.Files
import Volley.Proofs.Http.Post
import Volley.Proofs.Json.Grammar
import Volley.Proofs.Json.Scan
import Volley.Proofs.Json.Skip
import Volley.Proofs.Keyed
import Volley.Proofs.Latency
import Volley.Proofs.Latest
import Volley.Proofs.Metrics
import Volley.Proofs.Plan.Acceptance
import Volley.Proofs.Plan.Basic
import Volley.Proofs.Plan.Endpoint
import Volley.Proofs.Push.Body
import Volley.Proofs.Push.Content
import Volley.Proofs.Push.Demands
import Volley.Proofs.Push.Identifier
import Volley.Proofs.Push.Protocol
import Volley.Proofs.Push.Reader
import Volley.Proofs.Push.Recipe
import Volley.Proofs.Push.Series
import Volley.Proofs.Random.Draw
import Volley.Proofs.Random.Uniform
import Volley.Proofs.Registers
import Volley.Proofs.Run.Accounting
import Volley.Proofs.Run.Cancelled
import Volley.Proofs.Run.Clock
import Volley.Proofs.Run.Course
import Volley.Proofs.Run.Fate
import Volley.Proofs.Run.FixedCount
import Volley.Proofs.Run.Gauge
import Volley.Proofs.Run.Inquiries
import Volley.Proofs.Run.Iteration
import Volley.Proofs.Run.Ledger
import Volley.Proofs.Run.Metrics
import Volley.Proofs.Run.Pace
import Volley.Proofs.Run.Pause
import Volley.Proofs.Run.Progress
import Volley.Proofs.Run.Report
import Volley.Proofs.Run.Safety
import Volley.Proofs.Run.Seed
import Volley.Proofs.Run.Shutdown
import Volley.Proofs.Run.Step
import Volley.Proofs.Run.Timely
import Volley.Proofs.Run.Trace
import Volley.Proofs.Run.Turns
import Volley.Proofs.Settings.Closed
import Volley.Proofs.Settings.Environments
import Volley.Proofs.Settings.Field
import Volley.Proofs.Settings.Origin
import Volley.Proofs.Settings.Precedence
import Volley.Proofs.Settings.Variables
import Volley.Proofs.Tally
import Volley.Proofs.Text.Blank
import Volley.Proofs.Text.Integer
import Volley.Proofs.Text.Sextets
import Volley.Proofs.Text.Utf8
import Volley.Proofs.Time
import Volley.Proofs.Toml.Merge
import Volley.Proofs.Toml.Ordered
import Volley.Proofs.Toml.Pathwise
import Volley.Proofs.Url.Join
import Volley.Push.Content
import Volley.Push.Corpus
import Volley.Push.Identifier
import Volley.Push.Protocol
import Volley.Push.Reader
import Volley.Push.Recipe
import Volley.Push.Request
import Volley.Random.Draw
import Volley.Random.Keystream
import Volley.Run.Channel
import Volley.Run.Clock
import Volley.Run.Delivery
import Volley.Run.Inquiries
import Volley.Run.Iteration
import Volley.Run.Report
import Volley.Run.Schedule
import Volley.Run.State
import Volley.Run.Trace
import Volley.Session
import Volley.Settings.Basic
import Volley.Settings.Decode
import Volley.Settings.Overrides
import Volley.Settings.Source
import Volley.Setup
import Volley.Shape
import Volley.Tally
import Volley.Text.Base64
import Volley.Text.Blank
import Volley.Text.Integer
import Volley.Text.Printable
import Volley.Text.Quoted
import Volley.Text.Utf8
import Volley.Time
import Volley.Toml.Basic
import Volley.Toml.Decode
import Volley.Toml.Draft
import Volley.Toml.Reader
import Volley.Toml.Scalar
import Volley.Toml.Scan
import Volley.Url.Basic
import Volley.Url.Error
import Volley.Url.Host
import Volley.Url.Percent
import Volley.Url.Reader
