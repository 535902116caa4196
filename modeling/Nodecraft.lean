import Nodecraft.Catalog.Record
import Nodecraft.Catalog.Registry
import Nodecraft.CompileError
import Nodecraft.Compiler.Basic
import Nodecraft.Compiler.Cache
import Nodecraft.Compiler.Settings
import Nodecraft.Component.Basic
import Nodecraft.Component.Evaluation
import Nodecraft.Component.Instance
import Nodecraft.Component.Options
import Nodecraft.Definition.Blocks
import Nodecraft.Digest.Sha256
import Nodecraft.Json.Basic
import Nodecraft.Json.Reader
import Nodecraft.Json.Record
import Nodecraft.Json.Writer
import Nodecraft.Logic.Body
import Nodecraft.Logic.Form
import Nodecraft.Logic.Import
import Nodecraft.Markup.Arena
import Nodecraft.Markup.Build.Body
import Nodecraft.Markup.Build.Document
import Nodecraft.Markup.Build.Foreign
import Nodecraft.Markup.Build.Formatting
import Nodecraft.Markup.Build.Head
import Nodecraft.Markup.Build.Select
import Nodecraft.Markup.Build.State
import Nodecraft.Markup.Build.Table
import Nodecraft.Markup.Element
import Nodecraft.Markup.EntityTable
import Nodecraft.Markup.Lexer
import Nodecraft.Markup.Node
import Nodecraft.Markup.Reference
import Nodecraft.Markup.Token
import Nodecraft.Number.Exact
import Nodecraft.Number.Fixed
import Nodecraft.Number.Reading
import Nodecraft.Number.Shortest
import Nodecraft.Proofs.Catalog.Registrations
import Nodecraft.Proofs.Compiler.Events
import Nodecraft.Proofs.Compiler.History
import Nodecraft.Proofs.Compiler.Independence
import Nodecraft.Proofs.Compiler.Recency
import Nodecraft.Proofs.Compiler.Untouched
import Nodecraft.Proofs.Component.Capabilities
import Nodecraft.Proofs.Component.Closing
import Nodecraft.Proofs.Component.Commands
import Nodecraft.Proofs.Component.Watchers
import Nodecraft.Proofs.Component.HeldCells
import Nodecraft.Proofs.Component.Isolation
import Nodecraft.Proofs.Component.NodeData
import Nodecraft.Proofs.Component.Operations
import Nodecraft.Proofs.Component.State
import Nodecraft.Proofs.Component.Turns
import Nodecraft.Proofs.Component.Unchanged
import Nodecraft.Proofs.Definition.Blocks
import Nodecraft.Proofs.Logic.Imports
import Nodecraft.Proofs.Logic.Setup
import Nodecraft.Proofs.Markup.Documents
import Nodecraft.Proofs.Markup.Lexing
import Nodecraft.Proofs.Markup.Scanning
import Nodecraft.Proofs.Markup.Tables
import Nodecraft.Proofs.Markup.Receiving
import Nodecraft.Proofs.Markup.Beginnings
import Nodecraft.Proofs.Markup.Nests
import Nodecraft.Proofs.Markup.Runs
import Nodecraft.Proofs.Markup.Lines
import Nodecraft.Proofs.Number.Literals
import Nodecraft.Proofs.Number.Whole
import Nodecraft.Proofs.Sandbox.ArrayMethods
import Nodecraft.Proofs.Sandbox.Budget
import Nodecraft.Proofs.Sandbox.Chains
import Nodecraft.Proofs.Sandbox.Congruence
import Nodecraft.Proofs.Sandbox.Counters
import Nodecraft.Proofs.Sandbox.Copies
import Nodecraft.Proofs.Sandbox.CycleGuards
import Nodecraft.Proofs.Sandbox.Escape
import Nodecraft.Proofs.Sandbox.Extension
import Nodecraft.Proofs.Sandbox.Fuel
import Nodecraft.Proofs.Sandbox.HeldCells
import Nodecraft.Proofs.Sandbox.Leads
import Nodecraft.Proofs.Sandbox.LimitErrors
import Nodecraft.Proofs.Sandbox.LoopScopes
import Nodecraft.Proofs.Sandbox.Methods
import Nodecraft.Proofs.Sandbox.Probe
import Nodecraft.Proofs.Sandbox.Numerals
import Nodecraft.Proofs.Sandbox.Outcome
import Nodecraft.Proofs.Sandbox.Overlap
import Nodecraft.Proofs.Sandbox.Replacing
import Nodecraft.Proofs.Sandbox.Rules
import Nodecraft.Proofs.Sandbox.Sorting
import Nodecraft.Proofs.Sandbox.Termination
import Nodecraft.Proofs.Sandbox.Ticks
import Nodecraft.Proofs.Sandbox.Writing
import Nodecraft.Proofs.Script.Brackets
import Nodecraft.Proofs.Script.Levels
import Nodecraft.Proofs.Script.Positions
import Nodecraft.Proofs.Template.Budget
import Nodecraft.Proofs.Template.Conditions
import Nodecraft.Proofs.Template.Elements
import Nodecraft.Proofs.Template.Names
import Nodecraft.Proofs.Template.NestedClasses
import Nodecraft.Proofs.Template.Outline
import Nodecraft.Proofs.Template.Placeholders
import Nodecraft.Proofs.Template.Repetition
import Nodecraft.Proofs.Template.Preparation
import Nodecraft.Proofs.Template.TagBalance
import Nodecraft.Proofs.Template.TagGrammar
import Nodecraft.Proofs.Template.Views
import Nodecraft.Proofs.Template.Writing
import Nodecraft.Proofs.Template.Written
import Nodecraft.Proofs.Text.Search
import Nodecraft.Proofs.View.Decoding
import Nodecraft.Proofs.View.Entries
import Nodecraft.Proofs.View.Scanning
import Nodecraft.Sandbox.Action
import Nodecraft.Sandbox.Capability
import Nodecraft.Sandbox.Conversion
import Nodecraft.Sandbox.Evaluation.Call
import Nodecraft.Sandbox.Evaluation.Expression
import Nodecraft.Sandbox.Evaluation.Pattern
import Nodecraft.Sandbox.Evaluation.Statement
import Nodecraft.Sandbox.Failure
import Nodecraft.Sandbox.Fields
import Nodecraft.Sandbox.Machine
import Nodecraft.Sandbox.Method.Argument
import Nodecraft.Sandbox.Method.Array
import Nodecraft.Sandbox.Method.Number
import Nodecraft.Sandbox.Method.Text
import Nodecraft.Sandbox.Operator
import Nodecraft.Sandbox.Property
import Nodecraft.Sandbox.Scope
import Nodecraft.Sandbox.Value
import Nodecraft.Sandbox.Whitelist
import Nodecraft.Script.Lexer
import Nodecraft.Script.Nesting
import Nodecraft.Script.Reading
import Nodecraft.Script.Subset
import Nodecraft.Script.Surface
import Nodecraft.Script.Surface.Expression
import Nodecraft.Script.Surface.Function
import Nodecraft.Script.Surface.Grammar
import Nodecraft.Script.Surface.State
import Nodecraft.Script.Surface.Statement
import Nodecraft.Script.Syntax
import Nodecraft.Script.Token
import Nodecraft.Template.Basic
import Nodecraft.Template.Compile
import Nodecraft.Template.Directive
import Nodecraft.Template.Expression
import Nodecraft.Template.Fault
import Nodecraft.Template.Interpolation
import Nodecraft.Template.Render
import Nodecraft.Template.Style
import Nodecraft.Template.Tag
import Nodecraft.Text.Blank
import Nodecraft.Text.CodePointSet
import Nodecraft.Text.Identifier
import Nodecraft.Text.LetterCase
import Nodecraft.Text.Letters
import Nodecraft.Text.Search
import Nodecraft.View.Document
import Nodecraft.View.Html
import Nodecraft.View.Node
