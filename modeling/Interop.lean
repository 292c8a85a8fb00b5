import Interop.Call.Format
import Interop.Host.Basic
import Interop.Host.Inspect
import Interop.Proofs.Delivery.Store
import Interop.Proofs.Host.Run
import Interop.Proofs.Delivery.Convert
import Interop.Proofs.Delivery.Soundness
import Interop.Proofs.Delivery.Deliverable
import Interop.Proofs.Call.Selection
import Interop.Proofs.Call.Totals
import Interop.Proofs.Call.Binding
import Interop.Proofs.Host.Distance
import Interop.Proofs.Members.Visible
import Interop.Proofs.Surface.Snapshot
import Interop.Proofs.Delivery.Session
import Interop.Proofs.Number.Grammar
import Interop.Proofs.Text.Blank
import Interop.Proofs.Text.Utf8
import Interop.Proofs.Text.Lossy
import Interop.Proofs.Delivery.Text
import Interop.Proofs.Number.Reading
import Interop.Proofs.Number.Rounding
import Interop.Proofs.Number.Nearest
import Interop.Proofs.Number.Shortest
import Interop.Proofs.Number.Text
import Interop.Proofs.Number.RoundTrip
import Interop.Proofs.Delivery.TextNumber
import Interop.Proofs.Call.Bands
import Interop.Proofs.Members.Draft
import Interop.Proofs.Surface.Once
import Interop.Proofs.Surface.Names
import Interop.Proofs.Call.Specific
import Interop.Proofs.Text.Order
import Interop.Proofs.Surface.NameTable
import Interop.Proofs.Surface.Request
import Interop.Proofs.Surface.Nested
import Interop.Proofs.Surface.Methods
import Interop.Proofs.Host.Access
import Interop.Proofs.Surface.Fields
import Interop.Proofs.Host.Lineage
import Interop.Proofs.Delivery.Integral
import Interop.Proofs.Number.Exact
import Interop.Proofs.Delivery.Floating
import Interop.Proofs.Number.CorrectRounding
import Interop.Proofs.Toml.Written
import Interop.Proofs.Toml.Record
import Interop.Proofs.Call.Settings
import Interop.Proofs.Call.Sums
import Interop.Proofs.Host.Creation
