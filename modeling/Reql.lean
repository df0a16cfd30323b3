import Reql.Main
import Reql.Program
import Reql.Query
import Reql.Proofs.Fields
import Reql.Proofs.Term.Nodes
import Reql.Proofs.Term.Coercion
import Reql.Proofs.Json
import Reql.Proofs.Term.Making
import Reql.Proofs.Wire.Decoding
import Reql.Proofs.Term.Obtained
import Reql.Proofs.Wire.Encoding
import Reql.Proofs.Wire.RoundTrip
import Reql.Proofs.Wire.Canonical
import Reql.Proofs.Wire.Grammar
import Reql.Proofs.Program.Results
import Reql.Proofs.Term.Closure
import Reql.Proofs.Wire.DepthLimit
import Reql.Proofs.Wire.Sendable
import Reql.Proofs.Supply
import Reql.Proofs.Term.Binding
import Reql.Proofs.Term.Renaming
import Reql.Proofs.Builder.Call
import Reql.Proofs.Builder.Hygiene
import Reql.Proofs.Builder.Renaming
import Reql.Proofs.Builder.Sharing
import Reql.Proofs.Number.Ratio
import Reql.Proofs.Number.Rounding
import Reql.Proofs.Json.Numbers
import Reql.Proofs.Json.Text
import Reql.Proofs.Wire.Text
import Reql.Proofs.Command.Normalising
import Reql.Proofs.Wire.Equality
import Reql.Proofs.Wire.Documents
import Reql.Proofs.Term.Faults
import Reql.Proofs.Wire.Faults
import Reql.Proofs.Wire.Layout
import Reql.Proofs.Builder.Mixing
import Reql.Proofs.Term.Misfits
import Reql.Proofs.Wire.Rejections
import Reql.Proofs.Term.Wrapping
import Reql.Proofs.Program.Ledger
import Reql.Proofs.Builder.Accounting
import Reql.Proofs.Term.Splicing
import Reql.Proofs.Term.Chaining
import Reql.Proofs.Term.Scripts
import Reql.Proofs.Wire.Envelope
import Reql.Proofs.Datum.Routes
import Reql.Proofs.Datum.Display
import Reql.Proofs.Wire.Nesting
import Reql.Proofs.Term.Explain
import Reql.Proofs.Settings.Layers
import Reql.Proofs.Supply.Clients
