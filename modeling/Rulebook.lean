import Rulebook.Command.Basic
import Rulebook.Command.Line
import Rulebook.Command.Run
import Rulebook.Connective
import Rulebook.Evaluate
import Rulebook.Expr.Failure
import Rulebook.Expr.Grammar
import Rulebook.Expr.Node
import Rulebook.Expr.Reader
import Rulebook.Expr.Token
import Rulebook.Fault.Basic
import Rulebook.Fault.Chain
import Rulebook.Fault.Definitions
import Rulebook.Fault.Problem
import Rulebook.Fault.Registry
import Rulebook.Files.Path
import Rulebook.Files.Tree
import Rulebook.Filter.Basic
import Rulebook.Filter.Build
import Rulebook.Filter.Sql
import Rulebook.Fragment
import Rulebook.Number.Basic
import Rulebook.Number.Shortest
import Rulebook.Number.Text
import Rulebook.Predicate.Attribute
import Rulebook.Predicate.Builder
import Rulebook.Predicate.Coercion
import Rulebook.Predicate.Condition
import Rulebook.Predicate.Like
import Rulebook.Predicate.OnEntity
import Rulebook.Rule.Basic
import Rulebook.Rule.Extract
import Rulebook.Rule.OfValue
import Rulebook.Rule.Session
import Rulebook.Rule.Shown
import Rulebook.Rule.Written
import Rulebook.RulesFile.Basic
import Rulebook.RulesFile.Find
import Rulebook.Text.Blank
import Rulebook.Text.Commas
import Rulebook.Text.Cursor
import Rulebook.Text.Digits
import Rulebook.Text.Loose
import Rulebook.Text.Regex
import Rulebook.Text.Units
import Rulebook.Value.Basic
import Rulebook.Value.Json
import Rulebook.Value.Keys
import Rulebook.Yaml.Document
import Rulebook.Yaml.Lexeme
import Rulebook.Yaml.Lexing
import Rulebook.Yaml.Nesting
import Rulebook.Yaml.Outline
import Rulebook.Yaml.Scalar
import Rulebook.Main
import Rulebook.Proofs.Text.Sheltered
import Rulebook.Proofs.Expr.Form
import Rulebook.Proofs.Expr.Tokens
import Rulebook.Proofs.Expr.Reading
import Rulebook.Proofs.Expr.Readers
import Rulebook.Proofs.Expr.Completeness
import Rulebook.Proofs.Expr.Soundness
import Rulebook.Proofs.Expr.Rejection
import Rulebook.Proofs.Expr.Unread
import Rulebook.Proofs.Rule.Normal
import Rulebook.Proofs.Rule.Walk
import Rulebook.Proofs.Rule.Written
import Rulebook.Proofs.Rule.RoundTrip
import Rulebook.Proofs.Rule.Formatting
import Rulebook.Proofs.Predicate.ShortCircuit
import Rulebook.Proofs.Filter.Meaning
import Rulebook.Proofs.Rule.Meaning
import Rulebook.Proofs.Rule.Acceptance
import Rulebook.Proofs.Rule.Canonical
import Rulebook.Proofs.Expr.Spelled
import Rulebook.Proofs.Rule.Leaves
import Rulebook.Proofs.Sql.Precedence
import Rulebook.Proofs.Sql.Lexeme
import Rulebook.Proofs.Sql.Written
import Rulebook.Proofs.Sql.ReadBack
import Rulebook.Proofs.Sql.Truth
import Rulebook.Proofs.Filter.Chain
import Rulebook.Proofs.Filter.Values
import Rulebook.Proofs.Fragment.Grouping
import Rulebook.Proofs.Fragment.Copied
import Rulebook.Proofs.Value.Fields
import Rulebook.Proofs.Predicate.Missing
import Rulebook.Proofs.Fault.Identity
import Rulebook.Proofs.Value.JsonText
import Rulebook.Proofs.Rule.Stored
import Rulebook.Proofs.Predicate.Like
import Rulebook.Proofs.Predicate.Order
import Rulebook.Proofs.Predicate.Substring
import Rulebook.Proofs.Rule.Reports
import Rulebook.Proofs.Rule.Refusal
import Rulebook.Proofs.Rule.Whitelist
import Rulebook.Proofs.Number.Rounding
import Rulebook.Proofs.Rule.StatementShape
import Rulebook.Proofs.Rule.Shape
import Rulebook.Proofs.Rule.Ordinals
import Rulebook.Proofs.Rule.Mentions
import Rulebook.Proofs.Text.Digits
import Rulebook.Proofs.Number.Shortest
import Rulebook.Proofs.Number.Plain
import Rulebook.Proofs.Rule.Threshold
import Rulebook.Proofs.Text.Encoded
import Rulebook.Proofs.Expr.Places
import Rulebook.Proofs.Expr.ErrorIndex
import Rulebook.Proofs.Filter.Flattening
import Rulebook.Proofs.RulesFile.Nearest
import Rulebook.Proofs.RulesFile.Document
import Rulebook.Proofs.Command.Check
import Rulebook.Proofs.Fault.CauseChain
import Rulebook.Proofs.Rule.Edits
