import JsonTemplate.Builtin
import JsonTemplate.CommandLine
import JsonTemplate.CommandLine.Options
import JsonTemplate.Config
import JsonTemplate.Config.Load
import JsonTemplate.Context.Augment
import JsonTemplate.Context.Basic
import JsonTemplate.Engine
import JsonTemplate.Evaluation
import JsonTemplate.Expr.Basic
import JsonTemplate.Expr.Error
import JsonTemplate.Expr.Lexer
import JsonTemplate.Expr.Parser
import JsonTemplate.Expr.Report
import JsonTemplate.Expr.Token
import JsonTemplate.Fields
import JsonTemplate.Json.Basic
import JsonTemplate.Json.Lexeme
import JsonTemplate.Json.Numeral
import JsonTemplate.Json.Printer
import JsonTemplate.Json.Reader
import JsonTemplate.Main
import JsonTemplate.Number.Binary64
import JsonTemplate.Number.Numeral
import JsonTemplate.Number.Shortest
import JsonTemplate.Number.Style
import JsonTemplate.Proofs.Context.Accessors
import JsonTemplate.Proofs.Context.Agreement
import JsonTemplate.Proofs.Context.Augment
import JsonTemplate.Proofs.Context.Builtins
import JsonTemplate.Proofs.Context.Conservative
import JsonTemplate.Proofs.Context.Frame
import JsonTemplate.Proofs.Context.Idempotent
import JsonTemplate.Proofs.Context.KeyOrder
import JsonTemplate.Proofs.Context.Passage
import JsonTemplate.Proofs.Context.Served
import JsonTemplate.Proofs.Context.Turns
import JsonTemplate.Proofs.Context.Unaffected
import JsonTemplate.Proofs.Engine.Accessors
import JsonTemplate.Proofs.Engine.Atomic
import JsonTemplate.Proofs.Engine.Orderly
import JsonTemplate.Proofs.Engine.Run
import JsonTemplate.Proofs.Evaluation.Augmented
import JsonTemplate.Proofs.Evaluation.BigStep
import JsonTemplate.Proofs.Evaluation.Calls
import JsonTemplate.Proofs.Evaluation.Eager
import JsonTemplate.Proofs.Evaluation.Names
import JsonTemplate.Proofs.Evaluation.Navigation
import JsonTemplate.Proofs.Evaluation.Nesting
import JsonTemplate.Proofs.Evaluation.Notes
import JsonTemplate.Proofs.Evaluation.Pure
import JsonTemplate.Proofs.Evaluation.Results
import JsonTemplate.Proofs.Evaluation.Simulated
import JsonTemplate.Proofs.Expr.Completeness
import JsonTemplate.Proofs.Expr.Diagnosis
import JsonTemplate.Proofs.Expr.Escapes
import JsonTemplate.Proofs.Expr.Excerpts
import JsonTemplate.Proofs.Expr.Extents
import JsonTemplate.Proofs.Expr.Grammar
import JsonTemplate.Proofs.Expr.Language
import JsonTemplate.Proofs.Expr.Lists
import JsonTemplate.Proofs.Expr.Literals
import JsonTemplate.Proofs.Expr.LongestMatch
import JsonTemplate.Proofs.Expr.Nodes
import JsonTemplate.Proofs.Expr.Numerals
import JsonTemplate.Proofs.Expr.Parentheses
import JsonTemplate.Proofs.Expr.Placement
import JsonTemplate.Proofs.Expr.Quoting
import JsonTemplate.Proofs.Expr.Reading
import JsonTemplate.Proofs.Expr.Rules
import JsonTemplate.Proofs.Expr.Scanning
import JsonTemplate.Proofs.Expr.Soundness
import JsonTemplate.Proofs.Expr.Spacing
import JsonTemplate.Proofs.Expr.Spans
import JsonTemplate.Proofs.Expr.Splitting
import JsonTemplate.Proofs.Expr.Strings
import JsonTemplate.Proofs.Expr.Tokenization
import JsonTemplate.Proofs.Expr.Viability
import JsonTemplate.Proofs.Json.Node
import JsonTemplate.Proofs.Json.Pointer
import JsonTemplate.Proofs.Json.Quotation
import JsonTemplate.Proofs.Json.Similar
import JsonTemplate.Proofs.Json.Written
import JsonTemplate.Proofs.Number.Codes
import JsonTemplate.Proofs.Number.Decimals
import JsonTemplate.Proofs.Number.Forms
import JsonTemplate.Proofs.Number.Indices
import JsonTemplate.Proofs.Number.Integers
import JsonTemplate.Proofs.Number.Naturals
import JsonTemplate.Proofs.Number.Nearest
import JsonTemplate.Proofs.Number.Notation
import JsonTemplate.Proofs.Number.Rounding
import JsonTemplate.Proofs.Number.Shortest
import JsonTemplate.Proofs.Template.Attempts
import JsonTemplate.Proofs.Template.DocumentOrder
import JsonTemplate.Proofs.Template.ErrorPath
import JsonTemplate.Proofs.Template.FixedPoint
import JsonTemplate.Proofs.Template.Limit
import JsonTemplate.Proofs.Template.NormalForm
import JsonTemplate.Proofs.Template.Observation
import JsonTemplate.Proofs.Template.PartialTree
import JsonTemplate.Proofs.Template.Placeholder
import JsonTemplate.Proofs.Template.Rendering
import JsonTemplate.Proofs.Template.Reordering
import JsonTemplate.Proofs.Template.Siblings
import JsonTemplate.Proofs.Template.Simulation
import JsonTemplate.Proofs.Template.Spared
import JsonTemplate.Proofs.Template.Stages
import JsonTemplate.Proofs.Template.Steps
import JsonTemplate.Proofs.Template.Termination
import JsonTemplate.Proofs.Template.Tour
import JsonTemplate.Proofs.Template.Trail
import JsonTemplate.Proofs.Text.Search
import JsonTemplate.Proofs.Text.Slice
import JsonTemplate.Proofs.Value.Bare
import JsonTemplate.Proofs.Value.Builtins
import JsonTemplate.Proofs.Value.Coercion
import JsonTemplate.Proofs.Value.Equality
import JsonTemplate.Proofs.Value.Join
import JsonTemplate.Proofs.Value.JsonForm
import JsonTemplate.Proofs.Value.LooseEquality
import JsonTemplate.Proofs.Value.Neat
import JsonTemplate.Proofs.Value.NumberText
import JsonTemplate.Proofs.Value.Numerals
import JsonTemplate.Proofs.Value.Objects
import JsonTemplate.Proofs.Value.Parts
import JsonTemplate.Proofs.Value.Positions
import JsonTemplate.Proofs.Value.ShortestText
import JsonTemplate.Proofs.Value.Similar
import JsonTemplate.Proofs.Value.WellFormed
import JsonTemplate.Template.Construct
import JsonTemplate.Template.Error
import JsonTemplate.Template.Placeholder
import JsonTemplate.Template.Walk
import JsonTemplate.Text.Basic
import JsonTemplate.Text.Case
import JsonTemplate.Text.CaseTable
import JsonTemplate.Text.Search
import JsonTemplate.Toml.Quoted
import JsonTemplate.Toml.Scalar
import JsonTemplate.Toml.Statement
import JsonTemplate.Value.Access
import JsonTemplate.Value.Basic
import JsonTemplate.Value.Conversion
import JsonTemplate.Value.Equality
import JsonTemplate.Value.Error
import JsonTemplate.Value.Operators
