import HandheldUI.Action.Listeners
import HandheldUI.Action.Quiet
import HandheldUI.Bench.Report
import HandheldUI.Proofs.Bus.Publication
import HandheldUI.Proofs.Controller.Settled
import HandheldUI.Proofs.Focus.Bracket
import HandheldUI.Proofs.Interface.BarredContact
import HandheldUI.Proofs.Interface.BaseZone
import HandheldUI.Proofs.Interface.Muted
import HandheldUI.Proofs.Interface.Veiled
import HandheldUI.Proofs.Overlay.Ledger
import HandheldUI.Proofs.Overlay.Listening
import HandheldUI.Proofs.Overlay.Pile
import HandheldUI.Proofs.Sidebar.Geometry
import HandheldUI.Proofs.Sidebar.Moves
import HandheldUI.Proofs.Controller.Frames
import HandheldUI.Proofs.Controller.TouchDrag
import HandheldUI.Proofs.Controller.CursorDrag
import HandheldUI.Proofs.Controller.FreshTouch
import HandheldUI.Proofs.Action.Abides
import HandheldUI.Proofs.Interface.SidebarCalls
import HandheldUI.Proofs.Interface.Pinned
import HandheldUI.Proofs.Input.Bars
import HandheldUI.Proofs.Selection.Consistent
import HandheldUI.Proofs.Sidebar.Toast
import HandheldUI.Proofs.Gesture.Contacts
import HandheldUI.Proofs.Focus.Picture
import HandheldUI.Proofs.Sidebar.Returns
import HandheldUI.Proofs.Sidebar.Outings
import HandheldUI.Proofs.Selection.Unwinding
import HandheldUI.Proofs.Bus.Unsubscribed
import HandheldUI.Proofs.Sidebar.Shape
import HandheldUI.Proofs.Sidebar.Lateness
import HandheldUI.Proofs.Focus.Ownership
import HandheldUI.Proofs.Navigation.Crossing
import HandheldUI.Proofs.Scalar.Squares
import HandheldUI.Proofs.Navigation.Icons
import HandheldUI.Proofs.Interface.Chosen
import HandheldUI.Proofs.Controller.Space
import HandheldUI.Proofs.Controller.Tiles
import HandheldUI.Proofs.Controller.Torus
