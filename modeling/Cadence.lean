import Cadence.Calendar.Date
import Cadence.Calendar.Iso
import Cadence.Calendar.Moment
import Cadence.Command.Desk
import Cadence.Command.Line
import Cadence.Command.Perform
import Cadence.Cron.Due
import Cadence.Cron.Field
import Cadence.Cron.Next
import Cadence.Cron.Schedule
import Cadence.Cron.Search
import Cadence.Cron.Weekday
import Cadence.Decimal.Notation
import Cadence.Decimal.Reading
import Cadence.Decimal.Shortest
import Cadence.Document
import Cadence.Duration
import Cadence.Example
import Cadence.Flow.Basic
import Cadence.Flow.Dump
import Cadence.Flow.File
import Cadence.Flow.Id
import Cadence.Flow.Step
import Cadence.Flow.Validate
import Cadence.Host
import Cadence.Http.Cookie
import Cadence.Http.HostName
import Cadence.Http.Message
import Cadence.Http.Send
import Cadence.Http.Url
import Cadence.Json.Basic
import Cadence.Json.Half
import Cadence.Json.Print
import Cadence.Json.Read
import Cadence.Main
import Cadence.Problem
import Cadence.Proofs.Calendar.Date
import Cadence.Proofs.Calendar.Instant
import Cadence.Proofs.Calendar.Iso
import Cadence.Proofs.Calendar.Month
import Cadence.Proofs.Calendar.Notation
import Cadence.Proofs.Calendar.Timestamp
import Cadence.Proofs.Command.Check
import Cadence.Proofs.Command.Definition
import Cadence.Proofs.Command.History
import Cadence.Proofs.Command.Pieces
import Cadence.Proofs.Cron.Agreement
import Cadence.Proofs.Cron.Allowed
import Cadence.Proofs.Cron.Enumeration
import Cadence.Proofs.Cron.First
import Cadence.Proofs.Cron.Occurrence
import Cadence.Proofs.Cron.Pattern
import Cadence.Proofs.Cron.Search
import Cadence.Proofs.Cron.Timestamp
import Cadence.Proofs.Cron.Verdict
import Cadence.Proofs.Cron.WeekdayField
import Cadence.Proofs.Cron.WeekdayGrammar
import Cadence.Proofs.Cron.WeekdayNames
import Cadence.Proofs.Cron.Window
import Cadence.Proofs.Decimal.Numeral
import Cadence.Proofs.Decimal.Order
import Cadence.Proofs.Decimal.Rounding
import Cadence.Proofs.Decimal.Thousandth
import Cadence.Proofs.Decimal.Whole
import Cadence.Proofs.Flow.Accepted
import Cadence.Proofs.Flow.Dumped
import Cadence.Proofs.Flow.Id
import Cadence.Proofs.Flow.Reading
import Cadence.Proofs.Flow.Rules
import Cadence.Proofs.Http.Limit
import Cadence.Proofs.Json.Finite
import Cadence.Proofs.Json.Number
import Cadence.Proofs.Json.Printed
import Cadence.Proofs.Json.Put
import Cadence.Proofs.Json.Reader
import Cadence.Proofs.Json.Short
import Cadence.Proofs.Rule.Decision
import Cadence.Proofs.Rule.Integers
import Cadence.Proofs.Rule.Operators
import Cadence.Proofs.Rule.Threshold
import Cadence.Proofs.Run.Duration
import Cadence.Proofs.Run.FirstError
import Cadence.Proofs.Run.LogLine
import Cadence.Proofs.Run.Reached
import Cadence.Proofs.Run.Reading
import Cadence.Proofs.Run.Responses
import Cadence.Proofs.Run.Sequence
import Cadence.Proofs.Run.Shape
import Cadence.Proofs.Run.ShortResults
import Cadence.Proofs.Run.Steps
import Cadence.Proofs.Run.TimeLimit
import Cadence.Proofs.Run.Webhook
import Cadence.Proofs.Scheduler.Course
import Cadence.Proofs.Scheduler.Coverage
import Cadence.Proofs.Scheduler.Dates
import Cadence.Proofs.Scheduler.Due
import Cadence.Proofs.Scheduler.Exact
import Cadence.Proofs.Scheduler.Guard
import Cadence.Proofs.Scheduler.LatestRun
import Cadence.Proofs.Scheduler.Ledger
import Cadence.Proofs.Scheduler.LoneSweep
import Cadence.Proofs.Scheduler.Moves
import Cadence.Proofs.Scheduler.NoLostUpdate
import Cadence.Proofs.Scheduler.OneSweep
import Cadence.Proofs.Scheduler.Origin
import Cadence.Proofs.Scheduler.Pace
import Cadence.Proofs.Scheduler.Row
import Cadence.Proofs.Scheduler.RunFlow
import Cadence.Proofs.Scheduler.Service
import Cadence.Proofs.Scheduler.Shutdown
import Cadence.Proofs.Scheduler.Spacing
import Cadence.Proofs.Scheduler.Termination
import Cadence.Proofs.Scheduler.Timekeeping
import Cadence.Proofs.Store.Access
import Cadence.Proofs.Store.Alike
import Cadence.Proofs.Store.Answers
import Cadence.Proofs.Store.Codec
import Cadence.Proofs.Store.Edits
import Cadence.Proofs.Store.Filing
import Cadence.Proofs.Store.Following
import Cadence.Proofs.Store.HistoryLaw
import Cadence.Proofs.Store.Interchange
import Cadence.Proofs.Store.Journal
import Cadence.Proofs.Store.Keys
import Cadence.Proofs.Store.Limits
import Cadence.Proofs.Store.Memory
import Cadence.Proofs.Store.Readable
import Cadence.Proofs.Store.Registry
import Cadence.Proofs.Store.Rules
import Cadence.Proofs.Store.Table
import Cadence.Proofs.Task.Ends
import Cadence.Proofs.Task.Replies
import Cadence.Proofs.Task.Within
import Cadence.Proofs.Template.Draft
import Cadence.Proofs.Template.Payload
import Cadence.Proofs.Template.Pieces
import Cadence.Proofs.Template.Position
import Cadence.Proofs.Template.Reference
import Cadence.Proofs.Template.Refusal
import Cadence.Proofs.Text.Parts
import Cadence.Proofs.Text.Runs
import Cadence.Proofs.Validation.Checked
import Cadence.Rule
import Cadence.Run.Context
import Cadence.Run.Execution
import Cadence.Run.Record
import Cadence.Run.Step
import Cadence.Run.Validate
import Cadence.Scheduler.Activity
import Cadence.Scheduler.Due
import Cadence.Scheduler.Engine
import Cadence.Settings
import Cadence.Store.Backend
import Cadence.Store.Basic
import Cadence.Store.Codec
import Cadence.Store.Depot
import Cadence.Store.Memory
import Cadence.Store.Registry
import Cadence.Store.Table
import Cadence.Task.Basic
import Cadence.Task.Surroundings
import Cadence.Template
import Cadence.Text.Base64
import Cadence.Text.Blank
import Cadence.Text.Case
import Cadence.Text.Cased
import Cadence.Text.Digit
import Cadence.Text.Encoding
import Cadence.Text.File
import Cadence.Text.Printable
import Cadence.Text.Punycode
import Cadence.Text.Quoted
import Cadence.Text.Uuid
import Cadence.Validation.Issue
import Cadence.Validation.Moment
import Cadence.Validation.Scalar
import Cadence.Yaml.Cursor
import Cadence.Yaml.Node
import Cadence.Yaml.Number
import Cadence.Yaml.Scalar
import Cadence.Yaml.Tag
import Cadence.Yaml.Token
import Cadence.Yaml.Value
