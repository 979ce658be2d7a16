import BindingEngine.Json.Parser
import BindingEngine.Path.Parser
import BindingEngine.Template.Basic
import BindingEngine.Data.Basic
import BindingEngine.Action.Basic
import BindingEngine.Engine.Basic
import BindingEngine.DeepLink.Router
import BindingEngine.Session.Execution
import BindingEngine.Proofs.Engine.Freshness
import BindingEngine.Proofs.Subscription.TornDown
import BindingEngine.Proofs.Tree.Naming
import BindingEngine.Proofs.Data.Reads
import BindingEngine.Proofs.Engine.Independence
import BindingEngine.Proofs.Value.Frame
import BindingEngine.Proofs.Expr.Rendering
import BindingEngine.Proofs.Expr.Layers
import BindingEngine.Proofs.Expr.Lexing
import BindingEngine.Proofs.Expr.RoundTrip
import BindingEngine.Proofs.Expr.Height
import BindingEngine.Proofs.Session.Handoff
import BindingEngine.Proofs.Session.Plain
import BindingEngine.Proofs.Session.Requests
import BindingEngine.Proofs.Session.Screens
import BindingEngine.Proofs.Engine.Separation
import BindingEngine.Proofs.Subscription.Scan
import BindingEngine.Proofs.Data.RoundTrip
import BindingEngine.Proofs.Document.Restoring
import BindingEngine.Proofs.Path.RoundTrip
import BindingEngine.Proofs.Navigation.RoundTrip
import BindingEngine.Proofs.Action.RoundTrip
import BindingEngine.Proofs.Navigation.Conservation
import BindingEngine.Proofs.Path.Legibility
import BindingEngine.Proofs.Session.History
import BindingEngine.Proofs.Session.Stopping
import BindingEngine.Proofs.Expr.Consumption
import BindingEngine.Proofs.Path.Portable
import BindingEngine.Proofs.Path.Agreement
import BindingEngine.Proofs.Tree.Traversal
import BindingEngine.Proofs.Binary64.Rounding
import BindingEngine.Proofs.Binary64.Arithmetic
import BindingEngine.Proofs.Expr.Integers
import BindingEngine.Proofs.Template.Opening
import BindingEngine.Proofs.Data.Flattening
import BindingEngine.Proofs.Expr.Locality
import BindingEngine.Proofs.Expr.Places
import BindingEngine.Proofs.Template.Composition
import BindingEngine.Proofs.Path.Syntax
import BindingEngine.Proofs.Value.Commutation
import BindingEngine.Proofs.Navigation.Url
import BindingEngine.Proofs.Session.Standstill
import BindingEngine.Proofs.Scope.Queries
import BindingEngine.Proofs.Template.Finiteness
import BindingEngine.Proofs.Template.Culprits
import BindingEngine.Proofs.Template.Escaping
