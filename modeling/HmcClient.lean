import HmcClient.Client.Alone
import HmcClient.Client.Call
import HmcClient.Client.Console
import HmcClient.Client.Dispatch
import HmcClient.Client.Execution
import HmcClient.Client.Identity
import HmcClient.Client.Logon
import HmcClient.Client.Session
import HmcClient.Client.Settings
import HmcClient.Client.Shared
import HmcClient.Client.Steps
import HmcClient.Client.Trace
import HmcClient.Client.World
import HmcClient.Duration
import HmcClient.Exchange.Dump
import HmcClient.Exchange.Endpoint
import HmcClient.Exchange.Header
import HmcClient.Exchange.Message
import HmcClient.Exchange.Reading
import HmcClient.Exchange.Redaction
import HmcClient.Exchange.Script
import HmcClient.Exchange.Talk
import HmcClient.Failure
import HmcClient.Job.Basic
import HmcClient.Job.Waiting
import HmcClient.Json.Basic
import HmcClient.Json.Document
import HmcClient.Json.Printer
import HmcClient.Json.Reader
import HmcClient.Json.Record
import HmcClient.Metrics.Context
import HmcClient.Metrics.Row
import HmcClient.Metrics.Sample
import HmcClient.Metrics.Value
import HmcClient.Number.Binary64
import HmcClient.Number.Literal
import HmcClient.Number.Shortest
import HmcClient.Number.Width
import HmcClient.Options
import HmcClient.Program
import HmcClient.Proofs.Client.Aftermath
import HmcClient.Proofs.Client.Alone
import HmcClient.Proofs.Client.Bookkeeping
import HmcClient.Proofs.Client.Calls
import HmcClient.Proofs.Client.Cancelling
import HmcClient.Proofs.Client.Carrying
import HmcClient.Proofs.Client.Closing
import HmcClient.Proofs.Client.Coalescing
import HmcClient.Proofs.Client.Conduct
import HmcClient.Proofs.Client.Deadlock
import HmcClient.Proofs.Client.Events
import HmcClient.Proofs.Client.Execution
import HmcClient.Proofs.Client.Flight
import HmcClient.Proofs.Client.Follows
import HmcClient.Proofs.Client.Heeding
import HmcClient.Proofs.Client.History
import HmcClient.Proofs.Client.Integrity
import HmcClient.Proofs.Client.Lawful
import HmcClient.Proofs.Client.Ledger
import HmcClient.Proofs.Client.Locking
import HmcClient.Proofs.Client.LoggingOff
import HmcClient.Proofs.Client.LoggingOn
import HmcClient.Proofs.Client.Pairing
import HmcClient.Proofs.Client.Partial
import HmcClient.Proofs.Client.Progress
import HmcClient.Proofs.Client.Recognition
import HmcClient.Proofs.Client.Recovery
import HmcClient.Proofs.Client.Retry
import HmcClient.Proofs.Client.Runs
import HmcClient.Proofs.Client.SingleFlight
import HmcClient.Proofs.Client.Statistics
import HmcClient.Proofs.Client.Tokens
import HmcClient.Proofs.Client.Traces
import HmcClient.Proofs.Client.Tracing
import HmcClient.Proofs.Client.Turns
import HmcClient.Proofs.Client.Turnstile
import HmcClient.Proofs.Client.Verifying
import HmcClient.Proofs.Client.Watched
import HmcClient.Proofs.Exchange.Dump
import HmcClient.Proofs.Exchange.Endpoint
import HmcClient.Proofs.Exchange.Header
import HmcClient.Proofs.Exchange.Normal
import HmcClient.Proofs.Exchange.Partial
import HmcClient.Proofs.Exchange.Reading
import HmcClient.Proofs.Exchange.Redaction
import HmcClient.Proofs.Exchange.Secrets
import HmcClient.Proofs.Exchange.Transcript
import HmcClient.Proofs.Failure
import HmcClient.Proofs.Job.Announcement
import HmcClient.Proofs.Job.Deadline
import HmcClient.Proofs.Job.Overflow
import HmcClient.Proofs.Job.Polling
import HmcClient.Proofs.Job.Waiting
import HmcClient.Proofs.Json.Keeping
import HmcClient.Proofs.Json.Record
import HmcClient.Proofs.Json.Text
import HmcClient.Proofs.Metrics.Grammar
import HmcClient.Proofs.Metrics.LineEndings
import HmcClient.Proofs.Metrics.Report
import HmcClient.Proofs.Metrics.Row
import HmcClient.Proofs.Metrics.Splitting
import HmcClient.Proofs.Metrics.Truncation
import HmcClient.Proofs.Number.Nearest
import HmcClient.Proofs.Resource.Addressing
import HmcClient.Proofs.Resource.Energy
import HmcClient.Proofs.Resource.Properties
import HmcClient.Proofs.Resource.Requests
import HmcClient.Proofs.Text.Blank
import HmcClient.Proofs.Text.Utf8
import HmcClient.Proofs.Trust.Anchors
import HmcClient.Proofs.Trust.Pem
import HmcClient.Proofs.Url.Address
import HmcClient.Proofs.Url.Authority
import HmcClient.Proofs.Url.Form
import HmcClient.Proofs.Url.Host
import HmcClient.Proofs.Url.Parse
import HmcClient.Proofs.Url.Path
import HmcClient.Proofs.Url.PathChars
import HmcClient.Proofs.Url.Query
import HmcClient.Resource.Adapter
import HmcClient.Resource.Cpc
import HmcClient.Resource.Energy
import HmcClient.Resource.Nic
import HmcClient.Resource.Partition
import HmcClient.Resource.StorageGroup
import HmcClient.Resource.VirtualSwitch
import HmcClient.Text.Blank
import HmcClient.Text.Hex
import HmcClient.Text.Hidden
import HmcClient.Text.Quoted
import HmcClient.Text.Utf8
import HmcClient.Trust.Anchors
import HmcClient.Trust.Pem
import HmcClient.Url.Basic
import HmcClient.Url.Domain
import HmcClient.Url.FilePath
import HmcClient.Url.Host
import HmcClient.Url.Input
import HmcClient.Url.Parse
import HmcClient.Url.Path
import HmcClient.Url.Percent
import HmcClient.Url.Query
