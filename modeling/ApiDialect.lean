import ApiDialect.CommandLine.Arguments
import ApiDialect.CommandLine.Demand
import ApiDialect.CommandLine.Reply
import ApiDialect.CommandLine.Word
import ApiDialect.Conversion
import ApiDialect.Decimal.Notation
import ApiDialect.Decimal.Reading
import ApiDialect.Decimal.Shortest
import ApiDialect.Dialect
import ApiDialect.Discriminator
import ApiDialect.Error
import ApiDialect.Files.Basic
import ApiDialect.Files.Path
import ApiDialect.Files.Snapshot
import ApiDialect.Files.Tree
import ApiDialect.Json.Printer
import ApiDialect.Json.Reader
import ApiDialect.Json.Token
import ApiDialect.KeyOrder
import ApiDialect.Main
import ApiDialect.MediaType
import ApiDialect.Members
import ApiDialect.Parameter
import ApiDialect.Parse
import ApiDialect.Pipeline
import ApiDialect.Placeholder
import ApiDialect.Pointer
import ApiDialect.Proofs.Addresses
import ApiDialect.Proofs.Agreement
import ApiDialect.Proofs.Aliases
import ApiDialect.Proofs.Alike
import ApiDialect.Proofs.Authorities
import ApiDialect.Proofs.BasePaths
import ApiDialect.Proofs.BlockEnds
import ApiDialect.Proofs.BodyContents
import ApiDialect.Proofs.BodyParameters
import ApiDialect.Proofs.CanonicalOrder
import ApiDialect.Proofs.ComponentPlaces
import ApiDialect.Proofs.ComponentReferences
import ApiDialect.Proofs.DepthLimits
import ApiDialect.Proofs.DocumentOrder
import ApiDialect.Proofs.Extensions
import ApiDialect.Proofs.FileIndependence
import ApiDialect.Proofs.FlatHeaders
import ApiDialect.Proofs.FlatParameters
import ApiDialect.Proofs.FlowScalars
import ApiDialect.Proofs.FlowSteps
import ApiDialect.Proofs.FlowText
import ApiDialect.Proofs.FoldedContents
import ApiDialect.Proofs.FormFields
import ApiDialect.Proofs.Independence
import ApiDialect.Proofs.InlinedSchemas
import ApiDialect.Proofs.Interchange
import ApiDialect.Proofs.JsonRoundTrip
import ApiDialect.Proofs.JsonTokens
import ApiDialect.Proofs.JsonTypes
import ApiDialect.Proofs.KeptPlaces
import ApiDialect.Proofs.Layout
import ApiDialect.Proofs.LineEnds
import ApiDialect.Proofs.MappingEntries
import ApiDialect.Proofs.Mappings
import ApiDialect.Proofs.Marks
import ApiDialect.Proofs.Members
import ApiDialect.Proofs.MovedTargets
import ApiDialect.Proofs.NameOrder
import ApiDialect.Proofs.Neighbours
import ApiDialect.Proofs.NestingFaults
import ApiDialect.Proofs.NormalForms
import ApiDialect.Proofs.OlderDialect
import ApiDialect.Proofs.OlderParts
import ApiDialect.Proofs.OperationFrames
import ApiDialect.Proofs.OperationSteps
import ApiDialect.Proofs.PathSteps
import ApiDialect.Proofs.Placeholders
import ApiDialect.Proofs.Places
import ApiDialect.Proofs.ProducedTypes
import ApiDialect.Proofs.Reading
import ApiDialect.Proofs.Reconversion
import ApiDialect.Proofs.ReferenceOrigins
import ApiDialect.Proofs.RefusedAddresses
import ApiDialect.Proofs.RelocationSteps
import ApiDialect.Proofs.Repairs
import ApiDialect.Proofs.Replacements
import ApiDialect.Proofs.RequiredNames
import ApiDialect.Proofs.Restyling
import ApiDialect.Proofs.Rewriting
import ApiDialect.Proofs.SchemaNodes
import ApiDialect.Proofs.SchemaSteps
import ApiDialect.Proofs.SecuritySchemes
import ApiDialect.Proofs.ServerPlaces
import ApiDialect.Proofs.SortedKeys
import ApiDialect.Proofs.SoundOperations
import ApiDialect.Proofs.SoundPaths
import ApiDialect.Proofs.SoundSteps
import ApiDialect.Proofs.Stability
import ApiDialect.Proofs.TagPlaces
import ApiDialect.Proofs.Templates
import ApiDialect.Proofs.Texts
import ApiDialect.Proofs.Trees
import ApiDialect.Proofs.Untagged
import ApiDialect.Proofs.VisitedSchemas
import ApiDialect.Proofs.WriteOnly
import ApiDialect.Proofs.WriteOnlyRequests
import ApiDialect.Proofs.WriteOnlyTraces
import ApiDialect.Proofs.WrittenPorts
import ApiDialect.Proofs.WrittenText
import ApiDialect.Reference
import ApiDialect.Registry
import ApiDialect.Relocation
import ApiDialect.Render
import ApiDialect.Repair
import ApiDialect.RequestBody
import ApiDialect.Response
import ApiDialect.Schema
import ApiDialect.Security
import ApiDialect.Server
import ApiDialect.Settings.Basic
import ApiDialect.Settings.Fault
import ApiDialect.Settings.Load
import ApiDialect.Source
import ApiDialect.Text.Blank
import ApiDialect.Text.Hex
import ApiDialect.Text.Quoted
import ApiDialect.Text.Search
import ApiDialect.Text.Unprintable
import ApiDialect.Url.Address
import ApiDialect.Url.Basic
import ApiDialect.Url.HostName
import ApiDialect.Url.Percent
import ApiDialect.Url.Punycode
import ApiDialect.Value
import ApiDialect.Version
import ApiDialect.Yaml.Character
import ApiDialect.Yaml.Cursor
import ApiDialect.Yaml.Indentation
import ApiDialect.Yaml.Node
import ApiDialect.Yaml.Printer
import ApiDialect.Yaml.Reader
import ApiDialect.Yaml.Scalar
import ApiDialect.Yaml.Tag
import ApiDialect.Yaml.Text
import ApiDialect.Yaml.Token
import ApiDialect.Proofs.JsonTypes
import ApiDialect.Proofs.Replacements
