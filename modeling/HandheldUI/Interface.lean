import HandheldUI.Controller.Page
import HandheldUI.Gesture
import HandheldUI.Navigation
import HandheldUI.Overlay

/-!
The whole interface. A frame begins with `sample`, goes on with `cross` and the input of the screen,
which uses `shortcuts`, `gesture` and `controller` as it needs them, and ends with `animate` before
drawing. The error popup and the debug menu swallow the input while they are shown.
-/

namespace HandheldUI

/-- One guard for each overlay. -/
structure Overlays where
  errorPopup : Guard := { overlay := .errorPopup }
  debugMenu : Guard := { overlay := .debugMenu }
  connection : Guard := { overlay := .connection }
  deriving DecidableEq, Repr

namespace Overlays

def get (o : Overlay) (g : Overlays) : Guard :=
  match o with
  | .errorPopup => g.errorPopup
  | .debugMenu => g.debugMenu
  | .connection => g.connection

def put (o : Overlay) (new : Guard) (g : Overlays) : Overlays :=
  match o with
  | .errorPopup => { g with errorPopup := new }
  | .debugMenu => { g with debugMenu := new }
  | .connection => { g with connection := new }

/-- An overlay that swallows all input is shown. -/
def mute (g : Overlays) : Bool := g.errorPopup.shown || g.debugMenu.shown

end Overlays

structure Interface (α : Type) where
  focus : Focus := {}
  overlays : Overlays := {}
  input : Input α
  sidebar : Sidebar.State α
  icon : Nat := 0
  contact : Option (Contact α α) := none
  pages : Controller.Pages α
  selections : Controller.PerPanel Selection
  /-- The controls as they were sampled, whatever is barred or muted. -/
  raw : Controls α
  deriving Repr

namespace Interface

/-- The time, the settings as they are stored, the mapping popup, and what lies under a touch. -/
structure Env (α : Type) where
  now : α
  settings : Settings α
  popup : Bool := false
  target? : Option (Point α → Option α) := none

inductive Event where
  | focus (e : Focus.Event)
  | overlay (o : Overlay) (e : Guard.Event)
  | sidebar (e : Sidebar.Event)
  | controller (e : Controller.Event)
  deriving DecidableEq, Repr

inductive Note (α : Type) where
  | focus (n : Focus.Note)
  | overlay (o : Overlay) (n : Guard.Note)
  | sidebar (n : Sidebar.Note)
  | crossed (zone : Zone) (screen : Screen)
  | chose (icon : Nat)
  | controller (n : Controller.Note α)
  | lookedUp (p : Point α)
  deriving Repr

def Event.ofNavigation : Navigation.Event → Event
  | .focus e => .focus e
  | .sidebar e => .sidebar e

def Event.ofSeat (o : Overlay) : Focus.Event ⊕ Guard.Event → Event
  | .inl e => .focus e
  | .inr e => .overlay o e

variable {α : Type}

def Note.ofNavigation : Navigation.Note → Note α
  | .focus n => .focus n
  | .sidebar n => .sidebar n
  | .crossed z s => .crossed z s
  | .chose i => .chose i

def Note.ofSeat (o : Overlay) : Focus.Note ⊕ Guard.Note → Note α
  | .inl n => .focus n
  | .inr n => .overlay o n

/-! The parts. What a part sees of its surroundings may depend on the other parts only. -/

def putNavigation (s : Navigation.State α) (u : Interface α) : Interface α :=
  { u with focus := s.focus, input := s.input, sidebar := s.sidebar, icon := s.icon }

def putController (s : Controller.State α) (u : Interface α) : Interface α :=
  { u with pages := s.pages, selections := s.selections, input := s.input }

def putSeat (o : Overlay) (s : Guard.Seat) (u : Interface α) : Interface α :=
  { u with overlays := u.overlays.put o s.guard, focus := s.focus }

def putContact (c : Option (Contact α α)) (u : Interface α) : Interface α := { u with contact := c }

variable {ρ : Type}

def navigationView (env : ρ → Interface α → Navigation.Env α)
    (h : ∀ r s u, env r (putNavigation s u) = env r u) :
    View ρ (Interface α) (Navigation.Env α) (Navigation.State α) where
  env := env
  get u := ⟨u.focus, u.input, u.sidebar, u.icon⟩
  put := putNavigation
  env_put := h

def controllerView (env : ρ → Interface α → Controller.Env α)
    (h : ∀ r s u, env r (putController s u) = env r u) :
    View ρ (Interface α) (Controller.Env α) (Controller.State α) where
  env := env
  get u := ⟨u.pages, u.selections, u.input⟩
  put := putController
  env_put := h

def contactView (env : ρ → Interface α → Gesture.Env α α)
    (h : ∀ r s u, env r (putContact s u) = env r u) :
    View ρ (Interface α) (Gesture.Env α α) (Option (Contact α α)) where
  env := env
  get u := u.contact
  put := putContact
  env_put := h

def seatView (o : Overlay) : View ρ (Interface α) Unit Guard.Seat where
  env _ _ := ()
  get u := ⟨u.overlays.get o, u.focus⟩
  put := putSeat o
  get_put := by cases o <;> intros <;> rfl
  put_get := by cases o <;> intros <;> rfl
  put_put := by cases o <;> intros <;> rfl

abbrev Op (α : Type) := Action (Env α) (Interface α) Event (Note α)

variable [Scalar α] {β : Type}

def initial : Interface α where
  input := .initial
  sidebar := .initial
  pages := .initial
  selections := Controller.unselected
  raw := .idle

def onNavigation (op : Navigation.Op α β) : Op α β :=
  op.within
    (navigationView (fun r u => ⟨r.now, r.settings.sane, u.overlays.mute⟩) (by intros; rfl))
    .ofNavigation .ofNavigation

def onFocus (op : Focus.Op β) : Op α β := onNavigation (Navigation.onFocus op)

def onSidebar (op : Sidebar.Op α β) : Op α β := onNavigation (Navigation.onSidebar op)

def onController (op : Controller.Op α β) : Op α β :=
  op.within
    (controllerView
      (fun r u => ⟨r.popup, u.focus.isCovered, u.overlays.mute, u.sidebar.look.width⟩)
      (by intros; rfl))
    .controller .controller

def onContact (op : Gesture.Op α α β) : Op α β :=
  op.within
    (contactView (fun r _ => ⟨r.target?, r.settings.sane.swipePx⟩) (by intros; rfl))
    Empty.elim .lookedUp

def onOverlay (o : Overlay) (op : Guard.Op β) : Op α β :=
  op.within (seatView o) (.ofSeat o) (.ofSeat o)

def onInput (f : Input α → Input α) : Op α Unit := modify fun u => { u with input := f u.input }

/-- Forgets the contact in progress. -/
def dropContact : Op α Unit := modify fun u => { u with contact := none }

/-- Takes in the controls of the next frame. -/
def sample (c : Controls α) : Op α Unit := do
  modify fun u => { u with raw := c }
  onInput (Input.take c)

def cross (screen : Screen) : Op α Bool := onNavigation (Navigation.cross screen)

/-- The sidebar's shortcuts. A contact that they free must not surface as a tap. -/
def shortcuts (screen : Screen) (dpadFree : Bool) : Op α (Option Screen) := do
  let wasBarred := (← get).input.touchBarred
  let next ← onNavigation (Navigation.shortcuts screen dpadFree)
  if wasBarred && !(← get).input.touchBarred then dropContact
  return next

/-- The gesture of this frame. A barred contact is idle until the finger is up. -/
def gesture : Op α (Gesture α α) := do
  let input := (← get).input
  if input.touchBarred then
    if input.touchDone then
      onInput Input.freeTouch
      dropContact
    return .idle
  else onContact (Gesture.classify input.touch)

def controller : Op α Unit := onController Controller.respond

def animate : Op α Unit := onSidebar Sidebar.tick

/-- Shows `screen`. The button that led here stays barred until it is let go. -/
def switchTo (screen : Screen) : Op α Unit := do
  onInput Input.barAll
  dropContact
  onNavigation (modify (Navigation.highlightScreen screen))
  if (← get).focus.inContent then onFocus (Focus.toContent screen)
  if screen = .controller then onController (Controller.turnTo .summary)

/-- What may be asked of the interface. -/
inductive Call (α : Type) where
  | sample (c : Controls α)
  | cross (screen : Screen)
  | shortcuts (screen : Screen) (dpadFree : Bool)
  | gesture
  | controller
  | animate
  | switchTo (screen : Screen)
  | focus (c : Focus.Call α)
  | sidebar (c : Sidebar.Call)
  | overlay (o : Overlay) (c : Guard.Call)
  deriving Repr

/-- What the interface answers. -/
inductive Answer (α : Type) where
  | done
  | flag (b : Bool)
  | goTo (screen : Option Screen)
  | gesture (g : Gesture α α)
  deriving Repr

def Answer.ofFlag? : Option Bool → Answer α
  | some b => flag b
  | none => done

def Call.run : Call α → Op α (Answer α)
  | sample c => Interface.sample c *> pure .done
  | cross s => .flag <$> Interface.cross s
  | shortcuts s d => .goTo <$> Interface.shortcuts s d
  | gesture => .gesture <$> Interface.gesture
  | controller => Interface.controller *> pure .done
  | animate => Interface.animate *> pure .done
  | switchTo s => Interface.switchTo s *> pure .done
  | focus c => .ofFlag? <$> onFocus c.run
  | sidebar c => onSidebar c.run *> pure .done
  | overlay o c => onOverlay o c.run *> pure .done

end Interface

end HandheldUI
