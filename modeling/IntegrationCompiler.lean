import IntegrationCompiler.CommandLine.Arguments
import IntegrationCompiler.CommandLine.Guide
import IntegrationCompiler.CommandLine.Invocation
import IntegrationCompiler.CommandLine.Run
import IntegrationCompiler.CommandLine.Work
import IntegrationCompiler.Config.Basic
import IntegrationCompiler.Config.Comments
import IntegrationCompiler.Config.Load
import IntegrationCompiler.Config.Settings
import IntegrationCompiler.Diagnostics.Failure
import IntegrationCompiler.Diagnostics.Issue
import IntegrationCompiler.Diagnostics.Log
import IntegrationCompiler.Draft.Basic
import IntegrationCompiler.Draft.Defaults
import IntegrationCompiler.Draft.Dropdowns
import IntegrationCompiler.Draft.Flattening
import IntegrationCompiler.Draft.HelperInputs
import IntegrationCompiler.Draft.Stage
import IntegrationCompiler.Draft.Visibility
import IntegrationCompiler.Endpoint.Basic
import IntegrationCompiler.Endpoint.Extract
import IntegrationCompiler.Field.Basic
import IntegrationCompiler.Field.Edit
import IntegrationCompiler.Field.OfSchema
import IntegrationCompiler.Files.Basic
import IntegrationCompiler.Files.Path
import IntegrationCompiler.Json.Printer
import IntegrationCompiler.Json.Reader
import IntegrationCompiler.Main
import IntegrationCompiler.Manifest.Basic
import IntegrationCompiler.Manifest.Overview
import IntegrationCompiler.Manifest.Write
import IntegrationCompiler.Naming.Label
import IntegrationCompiler.Naming.Noun
import IntegrationCompiler.Number.Basic
import IntegrationCompiler.Number.Binary64
import IntegrationCompiler.Number.Shortest
import IntegrationCompiler.Operation.Basic
import IntegrationCompiler.Operation.Compile
import IntegrationCompiler.Operation.OfEndpoint
import IntegrationCompiler.Output.Markup
import IntegrationCompiler.Output.Reporter
import IntegrationCompiler.Output.Table
import IntegrationCompiler.Output.Wrap
import IntegrationCompiler.Proofs.CommandLine.Generation
import IntegrationCompiler.Proofs.Config.Comments
import IntegrationCompiler.Proofs.Config.Load
import IntegrationCompiler.Proofs.Diagnostics.Agreement
import IntegrationCompiler.Proofs.Diagnostics.Checked
import IntegrationCompiler.Proofs.Diagnostics.Fails
import IntegrationCompiler.Proofs.Diagnostics.Outcomes
import IntegrationCompiler.Proofs.Diagnostics.Returns
import IntegrationCompiler.Proofs.Draft.Coverage
import IntegrationCompiler.Proofs.Draft.Failures
import IntegrationCompiler.Proofs.Draft.Hidden
import IntegrationCompiler.Proofs.Draft.Invariants
import IntegrationCompiler.Proofs.Draft.Prefilled
import IntegrationCompiler.Proofs.Draft.Shape
import IntegrationCompiler.Proofs.Draft.Siblings
import IntegrationCompiler.Proofs.Draft.Stages
import IntegrationCompiler.Proofs.Draft.Steady
import IntegrationCompiler.Proofs.Draft.Storable
import IntegrationCompiler.Proofs.Endpoint.Overriding
import IntegrationCompiler.Proofs.Endpoint.Parameters
import IntegrationCompiler.Proofs.Endpoint.Places
import IntegrationCompiler.Proofs.Endpoint.Schemas
import IntegrationCompiler.Proofs.Endpoint.Typed
import IntegrationCompiler.Proofs.Field.Kinds
import IntegrationCompiler.Proofs.Field.OfSchema
import IntegrationCompiler.Proofs.Field.Shape
import IntegrationCompiler.Proofs.Field.Siblings
import IntegrationCompiler.Proofs.Field.Tree
import IntegrationCompiler.Proofs.Field.Typed
import IntegrationCompiler.Proofs.Files.Names
import IntegrationCompiler.Proofs.Files.Under
import IntegrationCompiler.Proofs.Files.Writes
import IntegrationCompiler.Proofs.Json.LineEnds
import IntegrationCompiler.Proofs.Json.LongIntegers
import IntegrationCompiler.Proofs.Json.Numbers
import IntegrationCompiler.Proofs.Json.RoundTrip
import IntegrationCompiler.Proofs.Json.Spaced
import IntegrationCompiler.Proofs.Json.Stored
import IntegrationCompiler.Proofs.Json.Strings
import IntegrationCompiler.Proofs.Json.Tokens
import IntegrationCompiler.Proofs.Manifest.OwnFiles
import IntegrationCompiler.Proofs.Manifest.Paths
import IntegrationCompiler.Proofs.Naming.Titles
import IntegrationCompiler.Proofs.Number.Exact
import IntegrationCompiler.Proofs.Number.Numeral
import IntegrationCompiler.Proofs.Operation.Actions
import IntegrationCompiler.Proofs.Operation.Beside
import IntegrationCompiler.Proofs.Operation.Coverage
import IntegrationCompiler.Proofs.Operation.Credentials
import IntegrationCompiler.Proofs.Operation.Descriptions
import IntegrationCompiler.Proofs.Operation.Emission
import IntegrationCompiler.Proofs.Operation.Failures
import IntegrationCompiler.Proofs.Operation.FirstItem
import IntegrationCompiler.Proofs.Operation.Hidden
import IntegrationCompiler.Proofs.Operation.Kept
import IntegrationCompiler.Proofs.Operation.OfEndpoint
import IntegrationCompiler.Proofs.Operation.Planned
import IntegrationCompiler.Proofs.Operation.Queries
import IntegrationCompiler.Proofs.Operation.Restriction
import IntegrationCompiler.Proofs.Operation.Samples
import IntegrationCompiler.Proofs.Operation.Shape
import IntegrationCompiler.Proofs.Operation.Siblings
import IntegrationCompiler.Proofs.Operation.Storable
import IntegrationCompiler.Proofs.Operation.Triggers
import IntegrationCompiler.Proofs.Operation.Visibility
import IntegrationCompiler.Proofs.Operation.Yields
import IntegrationCompiler.Proofs.Reference.Chains
import IntegrationCompiler.Proofs.Reference.Graph
import IntegrationCompiler.Proofs.Reference.History
import IntegrationCompiler.Proofs.Reference.Memory
import IntegrationCompiler.Proofs.Reference.Merging
import IntegrationCompiler.Proofs.Reference.Parts
import IntegrationCompiler.Proofs.Reference.Plain
import IntegrationCompiler.Proofs.Reference.Pointers
import IntegrationCompiler.Proofs.Reference.Resolved
import IntegrationCompiler.Proofs.Reference.Rules
import IntegrationCompiler.Proofs.Reference.Steps
import IntegrationCompiler.Proofs.Reference.Tangles
import IntegrationCompiler.Proofs.Reference.Termination
import IntegrationCompiler.Proofs.Reference.Typed
import IntegrationCompiler.Proofs.Reference.Unions
import IntegrationCompiler.Proofs.Reference.WellMade
import IntegrationCompiler.Proofs.Request.Beside
import IntegrationCompiler.Proofs.Request.FilledAddress
import IntegrationCompiler.Proofs.Request.Finite
import IntegrationCompiler.Proofs.Request.Groups
import IntegrationCompiler.Proofs.Request.Merged
import IntegrationCompiler.Proofs.Request.Placed
import IntegrationCompiler.Proofs.Request.Placeholders
import IntegrationCompiler.Proofs.Request.Provided
import IntegrationCompiler.Proofs.Request.RoundTrip
import IntegrationCompiler.Proofs.Request.Sent
import IntegrationCompiler.Proofs.Request.Slots
import IntegrationCompiler.Proofs.Request.Unions
import IntegrationCompiler.Proofs.Response.Nested
import IntegrationCompiler.Proofs.Response.NewestFirst
import IntegrationCompiler.Proofs.Response.PageSize
import IntegrationCompiler.Proofs.Response.Paging
import IntegrationCompiler.Proofs.Response.Presentable
import IntegrationCompiler.Proofs.Response.Samples
import IntegrationCompiler.Proofs.Response.Storable
import IntegrationCompiler.Proofs.Response.Turns
import IntegrationCompiler.Proofs.Response.Wrapping
import IntegrationCompiler.Proofs.Source.Cache
import IntegrationCompiler.Proofs.Source.Content
import IntegrationCompiler.Proofs.Source.Reload
import IntegrationCompiler.Proofs.Text.Case
import IntegrationCompiler.Proofs.Text.Cutting
import IntegrationCompiler.Proofs.Text.Newlines
import IntegrationCompiler.Proofs.Text.Replacement
import IntegrationCompiler.Proofs.Value.Json
import IntegrationCompiler.Proofs.Value.Tree
import IntegrationCompiler.Proofs.Value.Updates
import IntegrationCompiler.Proofs.Yaml.Parsing
import IntegrationCompiler.Proofs.Yaml.Scalars
import IntegrationCompiler.Proofs.Yaml.Tokens
import IntegrationCompiler.Proofs.Yaml.Values
import IntegrationCompiler.Reference.Pointer
import IntegrationCompiler.Reference.Resolver
import IntegrationCompiler.Request.Build
import IntegrationCompiler.Request.OfEndpoint
import IntegrationCompiler.Request.Plan
import IntegrationCompiler.Request.Reading
import IntegrationCompiler.Response.OfEndpoint
import IntegrationCompiler.Response.Paging
import IntegrationCompiler.Response.Plan
import IntegrationCompiler.Response.Sample
import IntegrationCompiler.Response.Shaping
import IntegrationCompiler.Schema.Basic
import IntegrationCompiler.Source.Address
import IntegrationCompiler.Source.Cache
import IntegrationCompiler.Source.Content
import IntegrationCompiler.Source.Digest
import IntegrationCompiler.Source.Fetch
import IntegrationCompiler.Source.Load
import IntegrationCompiler.Text.Blank
import IntegrationCompiler.Text.Case
import IntegrationCompiler.Text.CaseData
import IntegrationCompiler.Text.Digit
import IntegrationCompiler.Text.Printable
import IntegrationCompiler.Text.Quoted
import IntegrationCompiler.Text.Search
import IntegrationCompiler.Text.Utf8
import IntegrationCompiler.Text.Width
import IntegrationCompiler.Value.Basic
import IntegrationCompiler.Value.Calendar
import IntegrationCompiler.Value.JsonForm
import IntegrationCompiler.Value.Text
import IntegrationCompiler.Yaml.Base64
import IntegrationCompiler.Yaml.Cursor
import IntegrationCompiler.Yaml.Document
import IntegrationCompiler.Yaml.Literal
import IntegrationCompiler.Yaml.Node
import IntegrationCompiler.Yaml.Tag
import IntegrationCompiler.Yaml.Token
