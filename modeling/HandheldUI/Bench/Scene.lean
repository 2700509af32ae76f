import HandheldUI.Interface
import HandheldUI.Scalar.Binary64

/-!
A test bench for the interface and its parts. The same parts stand on it whatever is being tried;
the setup says which of them are there and what they see: the whole interface wires its parts to
each other, and parts tried on their own are wired to the dials of the bench.
-/

namespace HandheldUI.Bench

/-- What is being tried. -/
inductive Kind where
  | clock | wave | sidebar | focus | guard | selection | gesture | input | navigation | controller
  | whole
  deriving DecidableEq, Repr

inductive Logging where
  | recording | console | silent
  deriving DecidableEq, Repr

/-- A touch target: a rectangle and the number it stands for. -/
structure Target where
  rect : Rect Float
  id : Float
  deriving Repr

structure Setup where
  kind : Kind
  /-- Without the connections that a part can do without. -/
  bare : Bool := false
  logging : Logging := .recording
  targets : Option (List Target) := none
  /-- The swipe threshold is on a dial. -/
  hasThreshold : Bool := false
  gridName : String := "grid"
  /-- The labels of guards tried on their own. -/
  guards : List (String × Overlay) := []

/-- What can be turned while the bench runs. The clock counts microseconds. -/
structure Dials where
  clock : Float := 0
  settings : Settings Float := .standard
  sidebarWidth : Float := 0
  popup : Bool := false
  muted : Bool := false
  threshold : Option Float := none
  deriving Repr

structure Scene where
  dials : Dials
  interface : Interface Float := .initial
  guards : String → Guard
  selection : Selection := .empty 1

/-- What the parts see besides each other. -/
structure Around where
  setup : Setup
  dials : Dials

namespace Around

/-- The whole interface wires its parts. -/
def wired (a : Around) : Bool := a.setup.kind = .whole

def settings (a : Around) : Settings Float :=
  if a.wired then a.dials.settings.sane else a.dials.settings

def muted (a : Around) (u : Interface Float) : Bool :=
  if a.wired then u.overlays.mute
  else a.dials.muted && !(a.setup.kind = .input && a.setup.bare)

def popup (a : Around) : Bool := a.dials.popup && !a.setup.bare

def sidebarWidth (a : Around) (u : Interface Float) : Float :=
  if a.wired then u.sidebar.look.width else a.dials.sidebarWidth

def threshold (a : Around) : Float :=
  if a.wired then a.settings.swipePx
  else if a.setup.bare || !a.setup.hasThreshold then Gesture.defaultThreshold
  else a.dials.threshold.getD Gesture.defaultThreshold

/-- The first target under a point. -/
def target? (a : Around) : Option (Point Float → Option Float) :=
  if a.setup.bare && a.setup.kind = .gesture then none
  else a.setup.targets.map fun ts p => (ts.find? (·.rect.contains p)).map (·.id)

def navigation (a : Around) (u : Interface Float) : Navigation.Env Float :=
  ⟨a.dials.clock, a.settings, a.muted u⟩

def controller (a : Around) (u : Interface Float) : Controller.Env Float :=
  ⟨a.popup, u.focus.isCovered, a.muted u, a.sidebarWidth u⟩

def whole (a : Around) : Interface.Env Float :=
  ⟨a.dials.clock, a.dials.settings, a.popup, a.target?⟩

end Around

inductive Event where
  | interface (e : Interface.Event)
  | guard (label : String) (e : Guard.Event)
  deriving DecidableEq, Repr

inductive Note where
  | interface (n : Interface.Note Float)
  | guard (label : String) (n : Guard.Note)
  | outOfRange (o : Selection.OutOfRange Float)
  deriving Repr

def Event.ofDeck : Deck.Event String → Event
  | .focus e => .interface (.focus e)
  | .guard label e => .guard label e

def Note.ofDeck : Deck.Note String → Note
  | .focus n => .interface (.focus n)
  | .guard label n => .guard label n

abbrev Op := Action Setup Scene Event Note

variable {β : Type}

def partsView : View Setup Scene Around (Interface Float) where
  env r t := ⟨r, t.dials⟩
  get t := t.interface
  put u t := { t with interface := u }

/-- The view of the whole interface, which reads the stored settings itself. -/
def wholeView : View Setup Scene (Interface.Env Float) (Interface Float) where
  env r t := Around.whole ⟨r, t.dials⟩
  get t := t.interface
  put u t := { t with interface := u }

def selectionView : View Setup Scene Unit Selection where
  env _ _ := ()
  get t := t.selection
  put g t := { t with selection := g }

/-- The guards tried on their own, and the focus that they cover. -/
def deckView : View Setup Scene Unit (Deck String) where
  env _ _ := ()
  get t := ⟨t.interface.focus, t.guards⟩
  put d t := { t with guards := d.guards, interface := { t.interface with focus := d.focus } }

/-- An action of the interface's parts, each seeing what the setup says. -/
def onParts (op : Action Around (Interface Float) Interface.Event (Interface.Note Float) β) :
    Op β :=
  op.within partsView .interface .interface

def onNavigation (op : Navigation.Op Float β) : Op β :=
  onParts <|
    op.within (Interface.navigationView Around.navigation (by intros; rfl))
      .ofNavigation .ofNavigation

def onController (op : Controller.Op Float β) : Op β :=
  onParts <|
    op.within (Interface.controllerView Around.controller (by intros; rfl)) .controller .controller

def onContact (op : Gesture.Op Float Float β) : Op β :=
  onParts <|
    op.within (Interface.contactView (fun a _ => ⟨a.target?, a.threshold⟩) (by intros; rfl))
      Empty.elim .lookedUp

def onOverlay (o : Overlay) (op : Guard.Op β) : Op β :=
  onParts <| op.within (Interface.seatView o) (.ofSeat o) (.ofSeat o)

def onDeck (op : Deck.Op String β) : Op β := op.within deckView .ofDeck .ofDeck

def onSelection (op : Selection.Op Float β) : Op β := op.within selectionView Empty.elim .outOfRange

def onWhole (op : Interface.Op Float β) : Op β := op.within wholeView .interface .interface

def onDials (f : Dials → Dials) : Op Unit := modify fun t => { t with dials := f t.dials }

/-- What the parts see now. -/
def around : Op Around := do
  return ⟨← read, (← get).dials⟩

end HandheldUI.Bench
