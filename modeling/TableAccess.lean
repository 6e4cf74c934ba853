import TableAccess.Binary64.Basic
import TableAccess.Binary64.Shortest
import TableAccess.Cache
import TableAccess.Command.Basic
import TableAccess.Command.Script
import TableAccess.Dependency
import TableAccess.Fault
import TableAccess.Json.Basic
import TableAccess.Json.Choice
import TableAccess.Json.Document
import TableAccess.Json.Number
import TableAccess.Json.Parser
import TableAccess.Json.Printer
import TableAccess.Json.Reader
import TableAccess.Json.Record
import TableAccess.Json.Token
import TableAccess.Mutation
import TableAccess.Permission.Clause
import TableAccess.Permission.Compile
import TableAccess.Permission.Definition
import TableAccess.Permission.Descriptor
import TableAccess.Permission.Id
import TableAccess.Permission.Kind
import TableAccess.Permission.RoleMap
import TableAccess.Permission.TablePermissions
import TableAccess.Predicate.Basic
import TableAccess.Predicate.Compile
import TableAccess.Predicate.Literal
import TableAccess.Proofs.Accord
import TableAccess.Proofs.Binary64.Rounding
import TableAccess.Proofs.Binary64.Shortest
import TableAccess.Proofs.Cache.Rebuild
import TableAccess.Proofs.Command.Documents
import TableAccess.Proofs.Command.Export
import TableAccess.Proofs.Command.Leaves
import TableAccess.Proofs.Command.Opening
import TableAccess.Proofs.FirstFault
import TableAccess.Proofs.Formats
import TableAccess.Proofs.Json.Canonical
import TableAccess.Proofs.Json.Float
import TableAccess.Proofs.Json.Numeral
import TableAccess.Proofs.Json.Origin
import TableAccess.Proofs.Json.Recovery
import TableAccess.Proofs.Json.Restoration
import TableAccess.Proofs.Json.Scale
import TableAccess.Proofs.Json.Text
import TableAccess.Proofs.Json.Yield
import TableAccess.Proofs.Permission.Agreement
import TableAccess.Proofs.Permission.Alike
import TableAccess.Proofs.Permission.Checks
import TableAccess.Proofs.Permission.Content
import TableAccess.Proofs.Permission.Grounding
import TableAccess.Proofs.Permission.Headers
import TableAccess.Proofs.Permission.Listing
import TableAccess.Proofs.Permission.Mentions
import TableAccess.Proofs.Permission.Parts
import TableAccess.Proofs.Permission.Retyping
import TableAccess.Proofs.Permission.RoleHistory
import TableAccess.Proofs.Permission.Spelling
import TableAccess.Proofs.Permission.Stored
import TableAccess.Proofs.Permission.TableHistory
import TableAccess.Proofs.Permission.Widening
import TableAccess.Proofs.Predicate.Agreement
import TableAccess.Proofs.Predicate.Alike
import TableAccess.Proofs.Predicate.Derivation
import TableAccess.Proofs.Predicate.Grounding
import TableAccess.Proofs.Predicate.Meaning
import TableAccess.Proofs.Predicate.Mentions
import TableAccess.Proofs.Predicate.Retyping
import TableAccess.Proofs.Predicate.Spelling
import TableAccess.Proofs.Predicate.WellFormed
import TableAccess.Proofs.Predicate.Widening
import TableAccess.Proofs.Registry.Coherence
import TableAccess.Proofs.Registry.Comment
import TableAccess.Proofs.Registry.Commit
import TableAccess.Proofs.Registry.Creation
import TableAccess.Proofs.Registry.Deeds
import TableAccess.Proofs.Registry.Dependents
import TableAccess.Proofs.Registry.Failure
import TableAccess.Proofs.Registry.Faithful
import TableAccess.Proofs.Registry.Filing
import TableAccess.Proofs.Registry.Numbering
import TableAccess.Proofs.Registry.Operation
import TableAccess.Proofs.Registry.Removal
import TableAccess.Proofs.Registry.Replay
import TableAccess.Proofs.Registry.Run
import TableAccess.Proofs.Registry.Step
import TableAccess.Proofs.Schema.Codec
import TableAccess.Proofs.Schema.Retyping
import TableAccess.Proofs.Schema.Widening
import TableAccess.Proofs.Server.Role
import TableAccess.Proofs.Server.Run
import TableAccess.Proofs.Server.Visibility
import TableAccess.Proofs.Session.Headers
import TableAccess.Proofs.Session.Variable
import TableAccess.Proofs.Sorted
import TableAccess.Proofs.Sorted.First
import TableAccess.Proofs.Store.Contents
import TableAccess.Proofs.Store.Key
import TableAccess.Proofs.Store.KeyOrder
import TableAccess.Proofs.Store.KeyReading
import TableAccess.Proofs.Store.Ledger
import TableAccess.Proofs.Store.Legible
import TableAccess.Proofs.Store.Numbering
import TableAccess.Proofs.Store.Refinement
import TableAccess.Proofs.Store.Table
import TableAccess.Proofs.Store.Writing
import TableAccess.Proofs.Success
import TableAccess.Proofs.Text.Bytes
import TableAccess.Proofs.Text.Numeral
import TableAccess.Schema.Basic
import TableAccess.Schema.Catalog
import TableAccess.Schema.ColumnType
import TableAccess.Server.Handler
import TableAccess.Server.MediaType
import TableAccess.Server.Uri
import TableAccess.Server.Visibility
import TableAccess.Session.Variable
import TableAccess.Settings
import TableAccess.Sorted.Map
import TableAccess.Sorted.Set
import TableAccess.Store.Basic
import TableAccess.Store.Key
import TableAccess.Store.Transaction
import TableAccess.Text.AsciiCase
import TableAccess.Text.Blank
import TableAccess.Text.Combining
import TableAccess.Text.Ignorable
import TableAccess.Text.Numeral
import TableAccess.Text.Printable
import TableAccess.Text.Quoted
