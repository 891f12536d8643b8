import TripleIndex.Bytes
import TripleIndex.Calendar.Date
import TripleIndex.Calendar.DateText
import TripleIndex.Calendar.Instant
import TripleIndex.Calendar.Scan
import TripleIndex.Catalog
import TripleIndex.Codec
import TripleIndex.Codec.Validation
import TripleIndex.Config
import TripleIndex.Config.Document
import TripleIndex.Cursor.Basic
import TripleIndex.Cursor.Peekable
import TripleIndex.Cursor.Scripted
import TripleIndex.Cursor.Statements
import TripleIndex.Document
import TripleIndex.Error
import TripleIndex.Hash.Sha256
import TripleIndex.Key
import TripleIndex.Layout
import TripleIndex.Numeral.Binary
import TripleIndex.Numeral.Decimal
import TripleIndex.Numeral.Digits
import TripleIndex.Numeral.Integer
import TripleIndex.OrderedDigits
import TripleIndex.Pattern
import TripleIndex.Planner
import TripleIndex.Proofs.Bytes
import TripleIndex.Proofs.Calendar.Date
import TripleIndex.Proofs.Calendar.Moments
import TripleIndex.Proofs.Calendar.Texts
import TripleIndex.Proofs.Canonical
import TripleIndex.Proofs.Codec
import TripleIndex.Proofs.Codec.Registry
import TripleIndex.Proofs.CrossRead
import TripleIndex.Proofs.Cursor
import TripleIndex.Proofs.Cursor.Gauge
import TripleIndex.Proofs.Cursor.Peekable
import TripleIndex.Proofs.Cursor.Reads
import TripleIndex.Proofs.Cursor.Unwrap
import TripleIndex.Proofs.Key
import TripleIndex.Proofs.Meaning
import TripleIndex.Proofs.Numeral.Binary
import TripleIndex.Proofs.Numeral.Digits
import TripleIndex.Proofs.Numeral.Exact
import TripleIndex.Proofs.OrderedDigits
import TripleIndex.Proofs.OrderedDigits.Words
import TripleIndex.Proofs.Outcome
import TripleIndex.Proofs.Pattern
import TripleIndex.Proofs.Planner
import TripleIndex.Proofs.Planner.Bounds
import TripleIndex.Proofs.Planner.Failures
import TripleIndex.Proofs.Planner.Hashed
import TripleIndex.Proofs.Query.Closing
import TripleIndex.Proofs.Query.Engine
import TripleIndex.Proofs.Query.Fault
import TripleIndex.Proofs.Query.Follow
import TripleIndex.Proofs.Query.Join
import TripleIndex.Proofs.Query.Lane
import TripleIndex.Proofs.Query.Loan
import TripleIndex.Proofs.Query.Merge
import TripleIndex.Proofs.Query.Pair
import TripleIndex.Proofs.Query.Predicate
import TripleIndex.Proofs.Query.Setup
import TripleIndex.Proofs.Query.States
import TripleIndex.Proofs.Query.Steps
import TripleIndex.Proofs.Query.Unchecked
import TripleIndex.Proofs.Query.Unsorted
import TripleIndex.Proofs.Range
import TripleIndex.Proofs.Range.Ordered
import TripleIndex.Proofs.Resolver
import TripleIndex.Proofs.RoundTrip
import TripleIndex.Proofs.Row
import TripleIndex.Proofs.RowOrder
import TripleIndex.Proofs.Store.Atomic
import TripleIndex.Proofs.Store.Inserted
import TripleIndex.Proofs.Store.Ledger
import TripleIndex.Proofs.Store.Scan
import TripleIndex.Proofs.Store.Table
import TripleIndex.Proofs.Text.Hex
import TripleIndex.Proofs.Text.Utf8
import TripleIndex.Query.Engine
import TripleIndex.Query.Error
import TripleIndex.Query.Join
import TripleIndex.Query.Lane
import TripleIndex.Query.Merge
import TripleIndex.Range
import TripleIndex.Resolver.Basic
import TripleIndex.Resolver.Numeric
import TripleIndex.Resolver.Styled
import TripleIndex.Resolver.Temporal
import TripleIndex.Row
import TripleIndex.Session
import TripleIndex.Session.Command
import TripleIndex.Session.Handle
import TripleIndex.Statement
import TripleIndex.Store.Basic
import TripleIndex.Store.Recorder
import TripleIndex.Store.Scanner
import TripleIndex.Store.Table
import TripleIndex.Text.Blank
import TripleIndex.Text.Concealed
import TripleIndex.Text.Hex
import TripleIndex.Text.Quoted
import TripleIndex.Text.Utf8
import TripleIndex.Value
import TripleIndex.Xsd
