import PipelineExpansion.BuildProcess.Document
import PipelineExpansion.BuildProcess.FrontMatter
import PipelineExpansion.BuildProcess.Load
import PipelineExpansion.BuildProcess.Model
import PipelineExpansion.BuildProcess.Mustache
import PipelineExpansion.BuildProcess.Phase
import PipelineExpansion.BuildProcess.Step
import PipelineExpansion.BuildProcess.Variable
import PipelineExpansion.CommandLine.Arguments
import PipelineExpansion.CommandLine.Run
import PipelineExpansion.CommandLine.Transcript
import PipelineExpansion.DependencyGraph
import PipelineExpansion.Diagnostic
import PipelineExpansion.Dictionary
import PipelineExpansion.Disk
import PipelineExpansion.Expression.Ast
import PipelineExpansion.Expression.Compare
import PipelineExpansion.Expression.Evaluate
import PipelineExpansion.Expression.Fault
import PipelineExpansion.Expression.Function
import PipelineExpansion.Expression.Lexeme
import PipelineExpansion.Expression.Parse
import PipelineExpansion.Expression.Segment
import PipelineExpansion.Expression.Token
import PipelineExpansion.Files
import PipelineExpansion.Glob.Pattern
import PipelineExpansion.Json
import PipelineExpansion.Json.Numeral
import PipelineExpansion.Json.Parse
import PipelineExpansion.Main
import PipelineExpansion.Number.Binary64
import PipelineExpansion.Number.Decimal
import PipelineExpansion.Pipeline.Compose
import PipelineExpansion.Pipeline.Container
import PipelineExpansion.Pipeline.Job
import PipelineExpansion.Pipeline.Load
import PipelineExpansion.Pipeline.Model
import PipelineExpansion.Pipeline.Parameters
import PipelineExpansion.Pipeline.Read
import PipelineExpansion.Pipeline.Reference
import PipelineExpansion.Pipeline.Runtime
import PipelineExpansion.Pipeline.Serialize
import PipelineExpansion.Pipeline.Stage
import PipelineExpansion.Pipeline.Steps
import PipelineExpansion.Pipeline.Strategy
import PipelineExpansion.Pipeline.Trigger
import PipelineExpansion.Pipeline.Variables
import PipelineExpansion.Proofs.BuildProcess.Congruence
import PipelineExpansion.Proofs.BuildProcess.Document
import PipelineExpansion.Proofs.BuildProcess.Entry
import PipelineExpansion.Proofs.BuildProcess.Exclusion
import PipelineExpansion.Proofs.BuildProcess.FileLimit
import PipelineExpansion.Proofs.BuildProcess.Loading
import PipelineExpansion.Proofs.BuildProcess.Node
import PipelineExpansion.Proofs.BuildProcess.Overrides
import PipelineExpansion.Proofs.BuildProcess.Phase
import PipelineExpansion.Proofs.BuildProcess.PhaseNames
import PipelineExpansion.Proofs.BuildProcess.ReadBack
import PipelineExpansion.Proofs.BuildProcess.Resolution
import PipelineExpansion.Proofs.BuildProcess.RoundTrip
import PipelineExpansion.Proofs.BuildProcess.Serialization
import PipelineExpansion.Proofs.BuildProcess.ShorthandStep
import PipelineExpansion.Proofs.BuildProcess.Step
import PipelineExpansion.Proofs.BuildProcess.Tags
import PipelineExpansion.Proofs.BuildProcess.Target
import PipelineExpansion.Proofs.BuildProcess.Task
import PipelineExpansion.Proofs.BuildProcess.TaskControl
import PipelineExpansion.Proofs.BuildProcess.Variable
import PipelineExpansion.Proofs.DependencyGraph
import PipelineExpansion.Proofs.Dictionary
import PipelineExpansion.Proofs.Expression.Equality
import PipelineExpansion.Proofs.Expression.FileNumber
import PipelineExpansion.Proofs.Expression.Format
import PipelineExpansion.Proofs.Expression.Inherited
import PipelineExpansion.Proofs.Expression.Lexeme
import PipelineExpansion.Proofs.Expression.Operators
import PipelineExpansion.Proofs.Expression.Parse
import PipelineExpansion.Proofs.Expression.Printer
import PipelineExpansion.Proofs.Expression.Segment
import PipelineExpansion.Proofs.Glob.CharacterClass
import PipelineExpansion.Proofs.Glob.Division
import PipelineExpansion.Proofs.Glob.PatternSet
import PipelineExpansion.Proofs.Glob.TrailingSubtree
import PipelineExpansion.Proofs.Number.Binary64
import PipelineExpansion.Proofs.Number.Decimal
import PipelineExpansion.Proofs.Outcome
import PipelineExpansion.Proofs.Pipeline.Binding
import PipelineExpansion.Proofs.Pipeline.Blame
import PipelineExpansion.Proofs.Pipeline.BranchFilter
import PipelineExpansion.Proofs.Pipeline.Composition
import PipelineExpansion.Proofs.Pipeline.Conditions
import PipelineExpansion.Proofs.Pipeline.Congruence
import PipelineExpansion.Proofs.Pipeline.Container
import PipelineExpansion.Proofs.Pipeline.ContainerReferences
import PipelineExpansion.Proofs.Pipeline.DependencyCycle
import PipelineExpansion.Proofs.Pipeline.Depth
import PipelineExpansion.Proofs.Pipeline.Entry
import PipelineExpansion.Proofs.Pipeline.ExtendsChain
import PipelineExpansion.Proofs.Pipeline.Extension
import PipelineExpansion.Proofs.Pipeline.FileLimit
import PipelineExpansion.Proofs.Pipeline.FileNumber
import PipelineExpansion.Proofs.Pipeline.Idempotence
import PipelineExpansion.Proofs.Pipeline.Job
import PipelineExpansion.Proofs.Pipeline.KeyOrder
import PipelineExpansion.Proofs.Pipeline.LastDefinition
import PipelineExpansion.Proofs.Pipeline.Locality
import PipelineExpansion.Proofs.Pipeline.Merge
import PipelineExpansion.Proofs.Pipeline.ParameterLookup
import PipelineExpansion.Proofs.Pipeline.Parameters
import PipelineExpansion.Proofs.Pipeline.Places
import PipelineExpansion.Proofs.Pipeline.Preparation
import PipelineExpansion.Proofs.Pipeline.ReferenceChain
import PipelineExpansion.Proofs.Pipeline.References
import PipelineExpansion.Proofs.Pipeline.Retrace
import PipelineExpansion.Proofs.Pipeline.Root
import PipelineExpansion.Proofs.Pipeline.ShorthandStep
import PipelineExpansion.Proofs.Pipeline.Splice
import PipelineExpansion.Proofs.Pipeline.Stage
import PipelineExpansion.Proofs.Pipeline.StaticVariables
import PipelineExpansion.Proofs.Pipeline.Step
import PipelineExpansion.Proofs.Pipeline.Strategy
import PipelineExpansion.Proofs.Pipeline.TokenForm
import PipelineExpansion.Proofs.Pipeline.Variables
import PipelineExpansion.Proofs.Pipeline.WiderLimits
import PipelineExpansion.Proofs.Pipeline.WrittenOut
import PipelineExpansion.Proofs.RelativePaths
import PipelineExpansion.Proofs.Reordering
import PipelineExpansion.Proofs.Shorthand
import PipelineExpansion.Proofs.Task.History
import PipelineExpansion.Proofs.Task.Inputs
import PipelineExpansion.Proofs.Template.BareEvaluation
import PipelineExpansion.Proofs.Template.Charge
import PipelineExpansion.Proofs.Template.Concatenation
import PipelineExpansion.Proofs.Template.Conditional
import PipelineExpansion.Proofs.Template.CoreSchema
import PipelineExpansion.Proofs.Template.DistinctMappings
import PipelineExpansion.Proofs.Template.DistinctNames
import PipelineExpansion.Proofs.Template.Evaluation
import PipelineExpansion.Proofs.Template.FileNumber
import PipelineExpansion.Proofs.Template.Journal
import PipelineExpansion.Proofs.Template.JsonForm
import PipelineExpansion.Proofs.Template.Literal
import PipelineExpansion.Proofs.Template.LoopCharge
import PipelineExpansion.Proofs.Template.Metering
import PipelineExpansion.Proofs.Template.Places
import PipelineExpansion.Proofs.Template.RelativePath
import PipelineExpansion.Proofs.Template.Resolve
import PipelineExpansion.Proofs.Template.Retrace
import PipelineExpansion.Proofs.Template.Token
import PipelineExpansion.Proofs.Template.Unplaced
import PipelineExpansion.Proofs.Text.FreshName
import PipelineExpansion.Proofs.Text.Letter
import PipelineExpansion.Proofs.Text.Pieces
import PipelineExpansion.Proofs.Text.RegularExpression
import PipelineExpansion.Proofs.Yaml.Assembly
import PipelineExpansion.Proofs.Yaml.DepthLimit
import PipelineExpansion.Proofs.Yaml.Graph
import PipelineExpansion.Proofs.Yaml.Int32
import PipelineExpansion.Proofs.Yaml.Likeness
import PipelineExpansion.Proofs.Yaml.Node
import PipelineExpansion.Proofs.Yaml.Pair
import PipelineExpansion.Proofs.Yaml.Reading
import PipelineExpansion.Proofs.Yaml.Refusal
import PipelineExpansion.Proofs.Yaml.Tree
import PipelineExpansion.Task.Catalog
import PipelineExpansion.Task.Inputs
import PipelineExpansion.Template.Context
import PipelineExpansion.Template.Evaluate
import PipelineExpansion.Template.Journal
import PipelineExpansion.Template.Limits
import PipelineExpansion.Template.Resolve
import PipelineExpansion.Template.Schema
import PipelineExpansion.Template.Schema.Read
import PipelineExpansion.Template.Schema.Standard
import PipelineExpansion.Template.Token
import PipelineExpansion.Template.Token.Load
import PipelineExpansion.Text.Blank
import PipelineExpansion.Text.Letter
import PipelineExpansion.Text.Lower
import PipelineExpansion.Text.Name
import PipelineExpansion.Text.Pieces
import PipelineExpansion.Text.Quoted
import PipelineExpansion.Text.Ranges
import PipelineExpansion.Text.Upper
import PipelineExpansion.Yaml.Assembly
import PipelineExpansion.Yaml.Cursor
import PipelineExpansion.Yaml.Event
import PipelineExpansion.Yaml.Fault
import PipelineExpansion.Yaml.Graph
import PipelineExpansion.Yaml.Mark
import PipelineExpansion.Yaml.Render
import PipelineExpansion.Yaml.Token
import PipelineExpansion.Yaml.Token.Place
import PipelineExpansion.Yaml.Token.Scalar
import PipelineExpansion.Yaml.Token.State
import PipelineExpansion.Yaml.Token.Stream
import PipelineExpansion.Yaml.Token.Tag
import PipelineExpansion.Yaml.Tree
