import Stencil.Config.Variable
import Stencil.Json.Writer
import Stencil.Session
import Stencil.Value.Merge
import Stencil.Value.Path
import Stencil.Value.Table
import Stencil.Config.Bundled
import Stencil.Yaml.Spot
import Stencil.CommandLine.Assignment
import Stencil.Main
import Stencil.Yaml.Token.Lexer
import Stencil.Yaml.Tag
import Stencil.Yaml.Timestamp
import Stencil.Yaml.Number
import Stencil.Yaml.Node
import Stencil.Yaml.Tree
import Stencil.Files.Content
import Stencil.Text.Digest
import Stencil.Config.Settings
import Stencil.CommandLine.Bindings
import Stencil.Yaml.Writer
import Stencil.Proofs.Buffer
import Stencil.Proofs.Delivery
import Stencil.Proofs.CacheCoherence
import Stencil.Proofs.Composition
import Stencil.Proofs.WrittenDefault
import Stencil.Proofs.DistinctKeys
import Stencil.Proofs.KeyPaths
import Stencil.Proofs.LayerPrecedence
import Stencil.Proofs.EnvironmentPrecedence
import Stencil.Proofs.StrictMode
import Stencil.Proofs.GrowingBindings
import Stencil.Proofs.SessionRuns
import Stencil.Proofs.FailedRender
import Stencil.Proofs.JsonRoundTrip
import Stencil.Proofs.CommandView
import Stencil.Proofs.SchemaDemands
import Stencil.Proofs.ValidConfig
import Stencil.Proofs.ToldFailures
import Stencil.Proofs.OutputModes
import Stencil.Proofs.LoggedRuns
import Stencil.Proofs.ShieldedRender
import Stencil.Proofs.CacheInvariant
import Stencil.Proofs.BodyGrammar
import Stencil.Proofs.CutDefaults
import Stencil.Proofs.Truncation
import Stencil.Proofs.StableOutput
import Stencil.Proofs.MergeAlgebra
import Stencil.Proofs.JsonNesting
import Stencil.Proofs.Readings
import Stencil.Proofs.VariableFailures
import Stencil.Proofs.MappingOverride
import Stencil.Proofs.VariableNames
import Stencil.Proofs.CarriedValues
import Stencil.Proofs.BindingPrecedence
import Stencil.Proofs.ScalarExtent
import Stencil.Proofs.WrittenScalars
import Stencil.Proofs.BlockReading
import Stencil.Proofs.WrittenDocuments
import Stencil.Proofs.StrippedDisplay
import Stencil.Proofs.WritesAtPaths
import Stencil.Proofs.ShownParts
import Stencil.Proofs.UnambiguousTables
import Stencil.Proofs.DoubleDigits
import Stencil.Proofs.EveryPart
import Stencil.Proofs.JsonDocuments
import Stencil.Proofs.WholeConfiguration
import Stencil.Proofs.ReadingOrder
