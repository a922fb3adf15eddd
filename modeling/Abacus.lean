import Abacus.Address
import Abacus.Api
import Abacus.Automaton
import Abacus.Bucket
import Abacus.Bucket.Registry
import Abacus.CommandLine
import Abacus.CommandLine.LogTarget
import Abacus.CommandLine.Options
import Abacus.Config
import Abacus.Config.Load
import Abacus.Config.Reload
import Abacus.Decimal.Binary
import Abacus.Decimal.Layout
import Abacus.Decimal.Read
import Abacus.Decimal.Shortest
import Abacus.Duration
import Abacus.Environment
import Abacus.Environment.Indexed
import Abacus.Expr
import Abacus.Expr.Eval
import Abacus.Expr.Parser
import Abacus.Fault
import Abacus.FileTree
import Abacus.Glob
import Abacus.Health
import Abacus.History
import Abacus.History.Cell
import Abacus.History.Recorder
import Abacus.History.Retry
import Abacus.History.Schema
import Abacus.History.Store
import Abacus.Http
import Abacus.Instant
import Abacus.Json
import Abacus.Json.Reader
import Abacus.Log
import Abacus.Main
import Abacus.Metric
import Abacus.Path
import Abacus.Proofs.Assignment
import Abacus.Proofs.Automaton
import Abacus.Proofs.Config.WithoutFile
import Abacus.Proofs.Context
import Abacus.Proofs.Decimal.Reading
import Abacus.Proofs.Decimal.Rounding
import Abacus.Proofs.Decimal.Shortest
import Abacus.Proofs.Environment
import Abacus.Proofs.Expr.Arithmetic
import Abacus.Proofs.Expr.RoundTrip
import Abacus.Proofs.FileTree
import Abacus.Proofs.Grammar
import Abacus.Proofs.History.Audit
import Abacus.Proofs.History.Columns
import Abacus.Proofs.History.Conservation
import Abacus.Proofs.History.Order
import Abacus.Proofs.History.Retention
import Abacus.Proofs.History.Saving
import Abacus.Proofs.Instant
import Abacus.Proofs.Json.RoundTrip
import Abacus.Proofs.Parser.Language
import Abacus.Proofs.Parser.Limit
import Abacus.Proofs.Parser.Lookahead
import Abacus.Proofs.Parser.Nesting
import Abacus.Proofs.Parser.OneLine
import Abacus.Proofs.Parser.Opening
import Abacus.Proofs.Parser.Outcome
import Abacus.Proofs.Parser.Returns
import Abacus.Proofs.Path
import Abacus.Proofs.Queue
import Abacus.Proofs.Run.Composition
import Abacus.Proofs.Run.FaultLines
import Abacus.Proofs.Run.Faults
import Abacus.Proofs.Run.Isolation
import Abacus.Proofs.Run.Listing
import Abacus.Proofs.Run.Outcomes
import Abacus.Proofs.Run.ReadBack
import Abacus.Proofs.Run.WhiteSpace
import Abacus.Proofs.Scanner.Blanks
import Abacus.Proofs.Scanner.Runs
import Abacus.Proofs.Scanner.Words
import Abacus.Proofs.Statement
import Abacus.Proofs.Text.Ascii
import Abacus.Proofs.Text.Digits
import Abacus.Proofs.Watch.Coverage
import Abacus.Queue
import Abacus.Run
import Abacus.Screen
import Abacus.Screen.Editor
import Abacus.Span
import Abacus.Statement
import Abacus.Text.Bytes
import Abacus.Text.Printable
import Abacus.Text.Quoted
import Abacus.Text.Space
import Abacus.Text.Utf8
import Abacus.Token
import Abacus.Token.Scanner
import Abacus.Toml
import Abacus.Toml.Document
import Abacus.Toml.Reader
import Abacus.Watch
import Abacus.Proofs.Bucket.Eviction
import Abacus.Proofs.Watch.Debounce
import Abacus.Proofs.Run.Instruments
import Abacus.Proofs.Api.Bodies
import Abacus.Proofs.Api.Exchange
import Abacus.Proofs.Scanner.Calls
import Abacus.Proofs.Scanner.Printed
import Abacus.Proofs.Expr.Order
import Abacus.Proofs.Parser.Exit
import Abacus.Proofs.Fault
import Abacus.Proofs.Text.Lines
import Abacus.Proofs.Text.Quoted
import Abacus.Proofs.Token
import Abacus.Proofs.History.Times
import Abacus.Proofs.Parser.Again
import Abacus.Proofs.Automaton.Language
import Abacus.Proofs.Watch.Closing
import Abacus.Proofs.Bucket.Retry
import Abacus.Proofs.Config.Loaded
import Abacus.Proofs.Environment.Indexed
