import ToolGate.Command.Arguments
import ToolGate.Command.Basic
import ToolGate.Command.Error
import ToolGate.Command.Reach
import ToolGate.Command.Reader
import ToolGate.Command.Run
import ToolGate.Command.Session
import ToolGate.Digest.Sha256
import ToolGate.Document.Basic
import ToolGate.Draft.Basic
import ToolGate.Draft.Check
import ToolGate.Draft.Finding
import ToolGate.Draft.Reader
import ToolGate.Files.Fault
import ToolGate.Files.Glob
import ToolGate.Files.Path
import ToolGate.Files.Staging
import ToolGate.Files.Tree
import ToolGate.Json.Basic
import ToolGate.Json.Binary64
import ToolGate.Json.Literal
import ToolGate.Json.Number
import ToolGate.Json.Parser
import ToolGate.Json.Printer
import ToolGate.Json.Quoted
import ToolGate.Json.Record
import ToolGate.Json.Token
import ToolGate.Main
import ToolGate.Policy.Basic
import ToolGate.Policy.Canonical
import ToolGate.Policy.Compile
import ToolGate.Policy.Error
import ToolGate.Policy.Merge
import ToolGate.Policy.Store
import ToolGate.Profile.Basic
import ToolGate.Profile.Catalog
import ToolGate.Profile.Id
import ToolGate.Profile.Reader
import ToolGate.Profile.Resolver
import ToolGate.Project.Basic
import ToolGate.Project.Settings
import ToolGate.Route.Access
import ToolGate.Route.Change
import ToolGate.Route.Dialog
import ToolGate.Route.Error
import ToolGate.Route.Group
import ToolGate.Route.Key
import ToolGate.Route.Protocol
import ToolGate.Route.Store
import ToolGate.Route.Stored
import ToolGate.Route.Table
import ToolGate.Rule.Classifier
import ToolGate.Rule.PolicyRule
import ToolGate.SortedMap.Basic
import ToolGate.SortedMap.Lemmas
import ToolGate.Tenant.Interpolation
import ToolGate.Tenant.Template
import ToolGate.Text.Blank
import ToolGate.Text.Cut
import ToolGate.Text.Hex
import ToolGate.Toml.Basic
import ToolGate.Toml.Entries
import ToolGate.Toml.Parser
import ToolGate.Toml.Quoted
import ToolGate.Toml.Scalar
import ToolGate.ToolMap
import ToolGate.Vocabulary.Hint
import ToolGate.Vocabulary.Label
import ToolGate.Vocabulary.Verb
import ToolGate.Vocabulary.Word
import ToolGate.Yaml.Cursor
import ToolGate.Yaml.Error
import ToolGate.Yaml.Node
import ToolGate.Yaml.Node.Parser
import ToolGate.Yaml.Reader
import ToolGate.Yaml.Scalar
import ToolGate.Yaml.Token
import ToolGate.Yaml.Token.Block
import ToolGate.Yaml.Token.Lexer
import ToolGate.Yaml.Token.Plain
import ToolGate.Yaml.Token.Property
import ToolGate.Yaml.Token.Quoted
import ToolGate.Proofs.Policy.Precedence
import ToolGate.Proofs.Draft.Valid
import ToolGate.Proofs.Draft.Defects
import ToolGate.Proofs.Json.Number
import ToolGate.Proofs.Json.RoundTrip
import ToolGate.Proofs.Json.Record
import ToolGate.Proofs.Policy.RoundTrip
import ToolGate.Proofs.Draft.Document
import ToolGate.Proofs.Route.Effect
import ToolGate.Proofs.Route.Group
import ToolGate.Proofs.Route.Invariant
import ToolGate.Proofs.Fallible
import ToolGate.Proofs.Files.Path
import ToolGate.Proofs.Files.Save
import ToolGate.Proofs.Route.RoundTrip
import ToolGate.Proofs.Route.Refinement
import ToolGate.Proofs.Policy.Release
import ToolGate.Proofs.Route.Race
import ToolGate.Proofs.Profile.History
import ToolGate.Proofs.Profile.Service
import ToolGate.Proofs.Policy.WellFormed
import ToolGate.Proofs.Tenant.Template
import ToolGate.Proofs.Policy.Classified
import ToolGate.Proofs.Route.Access
import ToolGate.Proofs.Tenant.Reach
import ToolGate.Proofs.Policy.Imports
import ToolGate.Proofs.Files.Staging
import ToolGate.Proofs.Route.Idle
import ToolGate.Proofs.Files.Stores
import ToolGate.Proofs.Tenant.Token
import ToolGate.Proofs.Tenant.Interpolation
import ToolGate.Proofs.Route.Rows
import ToolGate.Proofs.Route.Growth
import ToolGate.Proofs.Route.Locality
import ToolGate.Proofs.Route.Mode
import ToolGate.Proofs.Route.Undo
import ToolGate.Proofs.Route.Converge
import ToolGate.Proofs.Route.Listing
import ToolGate.Proofs.Route.Calls
import ToolGate.Proofs.Files.Glob
import ToolGate.Proofs.Profile.Listing
import ToolGate.Proofs.Rule.Written
import ToolGate.Proofs.Rule.Agreement
import ToolGate.Proofs.Route.Building
import ToolGate.Proofs.Route.Naming
import ToolGate.Proofs.Draft.Paths
import ToolGate.Proofs.Profile.Lookup
import ToolGate.Proofs.Digest
import ToolGate.Proofs.Command.Publish
