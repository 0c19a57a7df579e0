import PagedTopK.Binary64.Basic
import PagedTopK.Binary64.Decimal
import PagedTopK.Binary64.Layout
import PagedTopK.CommandLine.Arguments
import PagedTopK.CommandLine.Error
import PagedTopK.CommandLine.Run
import PagedTopK.Continuation
import PagedTopK.Directory
import PagedTopK.Encoding.Base64
import PagedTopK.Encoding.Sha256
import PagedTopK.Encoding.Utf8
import PagedTopK.Execution.Options
import PagedTopK.Execution.Run
import PagedTopK.Failure
import PagedTopK.Json.Basic
import PagedTopK.Json.Document
import PagedTopK.Json.Numeral
import PagedTopK.Json.Reader
import PagedTopK.Json.Scanner
import PagedTopK.Json.Token
import PagedTopK.Json.Writer
import PagedTopK.Main
import PagedTopK.Metrics
import PagedTopK.Plan.Basic
import PagedTopK.Plan.Reader
import PagedTopK.Proofs.Binary64.Rounding
import PagedTopK.Proofs.Binary64.Shortest
import PagedTopK.Proofs.CommandLine.Failures
import PagedTopK.Proofs.Continuation.Bounds
import PagedTopK.Proofs.Continuation.Codec
import PagedTopK.Proofs.Continuation.Document
import PagedTopK.Proofs.Encoding.Base64
import PagedTopK.Proofs.Encoding.Sha256
import PagedTopK.Proofs.Encoding.Utf8
import PagedTopK.Proofs.Except
import PagedTopK.Proofs.Execution.Agreement
import PagedTopK.Proofs.Execution.Failures
import PagedTopK.Proofs.Execution.Outcome
import PagedTopK.Proofs.Execution.Pages
import PagedTopK.Proofs.Execution.Requests
import PagedTopK.Proofs.Execution.Rounds
import PagedTopK.Proofs.Json.Document
import PagedTopK.Proofs.Json.Double
import PagedTopK.Proofs.Json.Number
import PagedTopK.Proofs.Json.Numeral
import PagedTopK.Proofs.Json.Quoted
import PagedTopK.Proofs.Json.Same
import PagedTopK.Proofs.Json.Scan
import PagedTopK.Proofs.Json.Value
import PagedTopK.Proofs.Json.Words
import PagedTopK.Proofs.Json.Writer
import PagedTopK.Proofs.Json.Record
import PagedTopK.Proofs.Execution.Cost
import PagedTopK.Proofs.Service.Response
import PagedTopK.Proofs.Service.Wire
import PagedTopK.Proofs.Json.Injective
import PagedTopK.Proofs.Json.Finite
import PagedTopK.Proofs.Verdict.Rows
import PagedTopK.Proofs.Lookup
import PagedTopK.Proofs.Plan.Change
import PagedTopK.Proofs.Plan.Given
import PagedTopK.Proofs.Plan.Reader
import PagedTopK.Proofs.Plan.Threshold
import PagedTopK.Proofs.Plan.Tidied
import PagedTopK.Proofs.Plan.Writer
import PagedTopK.Proofs.Query.Conditions
import PagedTopK.Proofs.Query.Evaluation
import PagedTopK.Proofs.Query.Grammar
import PagedTopK.Proofs.Query.Modifiers
import PagedTopK.Proofs.Query.OrderClause
import PagedTopK.Proofs.Query.Projection
import PagedTopK.Proofs.Query.Remainder
import PagedTopK.Proofs.Query.Search
import PagedTopK.Proofs.Query.Variables
import PagedTopK.Proofs.Ranking.Best
import PagedTopK.Proofs.Ranking.Order
import PagedTopK.Proofs.Ranking.Pruning
import PagedTopK.Proofs.Solution
import PagedTopK.Proofs.StableSort
import PagedTopK.Proofs.Strategy.Keyed
import PagedTopK.Proofs.Strategy.Threshold
import PagedTopK.Proofs.Text.Blank
import PagedTopK.Proofs.Text.Digits
import PagedTopK.Proofs.Verdict.Comparison
import PagedTopK.Proofs.Verdict.Fingerprint
import PagedTopK.Proofs.Verdict.Tally
import PagedTopK.Query.Clauses
import PagedTopK.Query.Error
import PagedTopK.Query.Keyword
import PagedTopK.Query.OrderBy
import PagedTopK.Query.Rewrite
import PagedTopK.Ranking.Basic
import PagedTopK.Ranking.Key
import PagedTopK.Ranking.KeyJson
import PagedTopK.Report
import PagedTopK.Service.Endpoint
import PagedTopK.Service.Http
import PagedTopK.Service.Request
import PagedTopK.Service.Response
import PagedTopK.Service.Transport
import PagedTopK.Settings
import PagedTopK.Solution
import PagedTopK.Strategy.Kind
import PagedTopK.Strategy.Selector
import PagedTopK.Strategy.State
import PagedTopK.Term.Lexical
import PagedTopK.Term.SortValue
import PagedTopK.Text.Alphanumeric
import PagedTopK.Text.Blank
import PagedTopK.Text.Digits
import PagedTopK.Verdict.Basic
import PagedTopK.Verdict.Fingerprint
import PagedTopK.Verdict.ResultFile
import PagedTopK.Yaml.Node
import PagedTopK.Yaml.Scalar
import PagedTopK.Yaml.Scanner
import PagedTopK.Yaml.Tag
import PagedTopK.Yaml.Token
import PagedTopK.Proofs.Binary64.Nearest
import PagedTopK.Proofs.Binary64.Order
import PagedTopK.Proofs.Term.Numeral
import PagedTopK.Proofs.Term.NumericOrder
import PagedTopK.Proofs.Encoding.Canonical
import PagedTopK.Proofs.Json.Spelling
import PagedTopK.Proofs.Json.Scanned
import PagedTopK.Proofs.Json.Grammar
import PagedTopK.Proofs.Plan.Grammar
import PagedTopK.Proofs.Continuation.Grammar
import PagedTopK.Proofs.Ranking.Bound
import PagedTopK.Proofs.Ranking.OfferOrder
import PagedTopK.Proofs.Plan.Located
import PagedTopK.Proofs.Json.Rearranged
import PagedTopK.Proofs.Plan.Same
import PagedTopK.Proofs.Continuation.Outcome
import PagedTopK.Proofs.Continuation.Repeated
import PagedTopK.Proofs.Execution.Warnings
import PagedTopK.Proofs.Binary64.Digits
import PagedTopK.Proofs.Binary64.Arithmetic
import PagedTopK.Proofs.Term.Written
import PagedTopK.Proofs.Strategy.Selector
import PagedTopK.Proofs.Execution.Readable
import PagedTopK.Proofs.Binary64.Error
import PagedTopK.Proofs.Json.Accuracy
import PagedTopK.Proofs.Json.Drift
import PagedTopK.Proofs.Continuation.Drift
import PagedTopK.Proofs.Query.Operations
import PagedTopK.Proofs.Ranking.TotalOrder
