import PolicyReview.Ancestry
import PolicyReview.Ancestry.Glob
import PolicyReview.Asset
import PolicyReview.Binary64
import PolicyReview.Config
import PolicyReview.Config.File
import PolicyReview.Config.Reader
import PolicyReview.Config.Schema
import PolicyReview.Document
import PolicyReview.Document.Kind
import PolicyReview.Document.Schema
import PolicyReview.Engine
import PolicyReview.Engine.Binding
import PolicyReview.Engine.Compilation
import PolicyReview.Engine.Registry
import PolicyReview.Engine.Scripted
import PolicyReview.FileTree
import PolicyReview.Json
import PolicyReview.Json.Pointer
import PolicyReview.Json.Reader
import PolicyReview.Json.Text
import PolicyReview.Library.Loading
import PolicyReview.Library.Source
import PolicyReview.Location
import PolicyReview.MatchRule
import PolicyReview.Number
import PolicyReview.Pattern
import PolicyReview.Pattern.Reader
import PolicyReview.Policy
import PolicyReview.PolicyError
import PolicyReview.PolicyValue
import PolicyReview.Pool
import PolicyReview.Pool.System
import PolicyReview.Proofs.Ancestry.Canonical
import PolicyReview.Proofs.Ancestry.Chain
import PolicyReview.Proofs.Ancestry.Composition
import PolicyReview.Proofs.Ancestry.Equivalence
import PolicyReview.Proofs.Ancestry.Grammar
import PolicyReview.Proofs.Ancestry.Matching
import PolicyReview.Proofs.Ancestry.Rendering
import PolicyReview.Proofs.Ancestry.Token
import PolicyReview.Proofs.Ancestry.Viability
import PolicyReview.Proofs.Ascending
import PolicyReview.Proofs.Asset
import PolicyReview.Proofs.Asset.Ancestors
import PolicyReview.Proofs.Asset.Envelope
import PolicyReview.Proofs.Asset.Rules
import PolicyReview.Proofs.Config.Agreement
import PolicyReview.Proofs.Config.Shape
import PolicyReview.Proofs.Document.Decoding
import PolicyReview.Proofs.Document.Echo
import PolicyReview.Proofs.Document.Outcome
import PolicyReview.Proofs.Document.Shape
import PolicyReview.Proofs.Document.Targets
import PolicyReview.Proofs.Engine.Binding
import PolicyReview.Proofs.Engine.Cancellation
import PolicyReview.Proofs.Engine.Compilation
import PolicyReview.Proofs.Engine.Completeness
import PolicyReview.Proofs.Engine.Construction
import PolicyReview.Proofs.Engine.Firing
import PolicyReview.Proofs.Engine.Guard
import PolicyReview.Proofs.Engine.Matching
import PolicyReview.Proofs.Engine.Registration
import PolicyReview.Proofs.Engine.Review
import PolicyReview.Proofs.Engine.Units
import PolicyReview.Proofs.Fallible
import PolicyReview.Proofs.FileTree
import PolicyReview.Proofs.FileTree.Position
import PolicyReview.Proofs.Json.Field
import PolicyReview.Proofs.Json.Order
import PolicyReview.Proofs.Json.Part
import PolicyReview.Proofs.Json.Place
import PolicyReview.Proofs.Json.Quoted
import PolicyReview.Proofs.Json.ReadBack
import PolicyReview.Proofs.Library.Determinism
import PolicyReview.Proofs.Library.Loading
import PolicyReview.Proofs.Library.Outcome
import PolicyReview.Proofs.Library.Overlap
import PolicyReview.Proofs.Library.Source
import PolicyReview.Proofs.Number.Text
import PolicyReview.Proofs.Pattern.Spelling
import PolicyReview.Proofs.PolicyValue
import PolicyReview.Proofs.PolicyValue.Correspondence
import PolicyReview.Proofs.PolicyValue.Decoding
import PolicyReview.Proofs.PolicyValue.Text
import PolicyReview.Proofs.Pool.Attribution
import PolicyReview.Proofs.Pool.Completion
import PolicyReview.Proofs.Pool.Conservation
import PolicyReview.Proofs.Pool.Failures
import PolicyReview.Proofs.Pool.Interruption
import PolicyReview.Proofs.Pool.Invariant
import PolicyReview.Proofs.Pool.Move
import PolicyReview.Proofs.Pool.Outcome
import PolicyReview.Proofs.Pool.Progress
import PolicyReview.Proofs.Pool.Response
import PolicyReview.Proofs.Pool.Trail
import PolicyReview.Proofs.Rego.Capture
import PolicyReview.Proofs.Rego.Chunk
import PolicyReview.Proofs.Rego.Expansion
import PolicyReview.Proofs.Rego.Guard
import PolicyReview.Proofs.Rego.Idempotence
import PolicyReview.Proofs.Rego.ImportLine
import PolicyReview.Proofs.Rego.Language
import PolicyReview.Proofs.Rego.Lexeme
import PolicyReview.Proofs.Rego.Literal
import PolicyReview.Proofs.Rego.Machine
import PolicyReview.Proofs.Rego.Preamble
import PolicyReview.Proofs.Rego.Qualification
import PolicyReview.Proofs.Rego.RawString
import PolicyReview.Proofs.Rego.Reference
import PolicyReview.Proofs.Rego.Report
import PolicyReview.Proofs.Rules
import PolicyReview.Proofs.Schema.Addition
import PolicyReview.Proofs.Schema.Closure
import PolicyReview.Proofs.Schema.Description
import PolicyReview.Proofs.Schema.Keyword
import PolicyReview.Proofs.Schema.Place
import PolicyReview.Proofs.Schema.Progress
import PolicyReview.Proofs.Schema.Reference
import PolicyReview.Proofs.Schema.Structural
import PolicyReview.Proofs.Schema.Tightening
import PolicyReview.Proofs.StableSort
import PolicyReview.Proofs.Target.Admission
import PolicyReview.Proofs.Target.BoundSet
import PolicyReview.Proofs.Target.Preamble
import PolicyReview.Proofs.Target.Rendering
import PolicyReview.Proofs.Target.Review
import PolicyReview.Proofs.Text.ByteOrder
import PolicyReview.Proofs.Text.Letter
import PolicyReview.Proofs.Text.Line
import PolicyReview.Proofs.Text.Numeral
import PolicyReview.Proofs.Text.Shown
import PolicyReview.Proofs.Text.Split
import PolicyReview.Proofs.Violation
import PolicyReview.Proofs.WorkerCounts
import PolicyReview.Proofs.Yaml.Order
import PolicyReview.Record
import PolicyReview.Rego.Arrangement
import PolicyReview.Rego.Builtin
import PolicyReview.Rego.CompiledUnit
import PolicyReview.Rego.Evaluation
import PolicyReview.Rego.Interpreter
import PolicyReview.Rego.Machine
import PolicyReview.Rego.Module
import PolicyReview.Rego.Module.Reader
import PolicyReview.Rego.Qualification
import PolicyReview.Rego.Token
import PolicyReview.Rego.Value
import PolicyReview.ReviewError
import PolicyReview.Runtime
import PolicyReview.Schema
import PolicyReview.Schema.Compiler
import PolicyReview.Schema.Metaschema
import PolicyReview.Schema.Parameters
import PolicyReview.Schema.Structural
import PolicyReview.Target
import PolicyReview.Target.Preamble
import PolicyReview.Text.Blank
import PolicyReview.Text.Utf8
import PolicyReview.Toml.Document
import PolicyReview.Toml.Scalar
import PolicyReview.Toml.Text
import PolicyReview.Toml.Value
import PolicyReview.Url
import PolicyReview.Url.Host
import PolicyReview.Url.Percent
import PolicyReview.Violation
import PolicyReview.WorkerCounts
import PolicyReview.Yaml.Cursor
import PolicyReview.Yaml.Node
import PolicyReview.Yaml.Plain
import PolicyReview.Yaml.Token
import PolicyReview.Yaml.Token.Lexer
import PolicyReview.Yaml.Token.Property
import PolicyReview.Yaml.Token.Scalar
import PolicyReview.Yaml.Value
