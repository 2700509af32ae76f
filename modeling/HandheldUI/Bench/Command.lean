import HandheldUI.Bench.Scene

/-!
What can be done on the bench: calls of the parts and of the whole, turns of the dials, and
questions.
-/

namespace HandheldUI.Bench

inductive Reply where
  | nothing
  | flag (b : Bool)
  | number (x : Float)
  | count (n : Nat)
  | zone (z : Zone)
  | screen (s : Option Screen)
  | phase (p : Sidebar.Phase)
  | page (p : Controller.Page)
  | owners (os : List Owner)
  | phases (p : Sidebar.Phases Float)
  | sidebar (s : Sidebar.State Float)
  | cells (cs : List Nat)
  /-- What a buffer holds in which cells were written, and their number. -/
  | written (buffer : Array Float) (n : Nat)
  | touch (t : Touch Float)
  | gesture (g : Gesture Float Float)
  | contact (c : Option (Contact Float Float))
  | icons (is : List (Sidebar.Icon Float))
  | rect (r : Rect Float)
  | controls (c : Controls Float)

def Reply.ofFlag? : Option Bool → Reply
  | some b => flag b
  | none => nothing

def Reply.ofAnswer : Interface.Answer Float → Reply
  | .done => nothing
  | .flag b => flag b
  | .goTo s => screen s
  | .gesture g => gesture g

/-- Something to do on the bench. -/
abbrev Command := Op Reply

/-- A question about the scene and what its parts see. -/
def ask (q : Around → Scene → Reply) : Command := do
  return q (← around) (← get)

def quietly (op : Op Unit) : Command := op *> pure .nothing

/-- Puts settings over those on the dials. -/
def configure (p : Settings.Patch Float) : Command :=
  quietly <| onDials fun d => { d with settings := d.settings.patched p }

structure Turn where
  sidebarWidth : Option Float := none
  popup : Option Bool := none
  muted : Option Bool := none
  threshold : Option Float := none

def turn (t : Turn) : Command :=
  quietly <| onDials fun d =>
    { d with
      sidebarWidth := t.sidebarWidth.getD d.sidebarWidth
      popup := t.popup.getD d.popup
      muted := t.muted.getD d.muted
      threshold := t.threshold.or d.threshold }

def setClock (us : Float) : Command := quietly <| onDials fun d => { d with clock := us }

def advanceClock (ms : Float) : Command :=
  quietly <| onDials fun d => { d with clock := d.clock + ms * 1000 }

/-- Does something to the wave at the present time. -/
def wave (f : Float → Sidebar.Wave Float → Sidebar.Wave Float) : Command :=
  quietly <| modify fun t =>
    let s := t.interface.sidebar
    { t with
      interface := { t.interface with sidebar := { s with wave := f t.dials.clock s.wave } } }

def sidebar (c : Sidebar.Call) : Command := quietly <| onNavigation (Navigation.onSidebar c.run)

def focus (c : Focus.Call Float) : Command := .ofFlag? <$> onNavigation (Navigation.onFocus c.run)

/-- The label of an overlay's guard on the bench. -/
def overlayLabel : Overlay → String
  | .errorPopup => "errorPopup"
  | .debugMenu => "debugMenu"
  | .connection => "connection"

def labelled? (label : String) : Option Overlay := Overlay.all.find? (overlayLabel · = label)

/-- The guard of this label: one of the whole interface, or one tried on its own. -/
def guardAt (a : Around) (label : String) (t : Scene) : Guard :=
  match a.wired, labelled? label with
  | true, some o => t.interface.overlays.get o
  | _, _ => t.guards label

def guard (label : String) (c : Guard.Call) : Command := do
  match (← around).wired, labelled? label with
  | true, some o => quietly (onOverlay o c.run)
  | _, _ => quietly (onDeck (Deck.onGuard label c.run))

def selection (c : Selection.Call Float) : Command := quietly <| onSelection c.run

def panelSelection (p : Controller.Panel) (c : Selection.Call Float) : Command :=
  quietly <| onController (Controller.onSelection p c.run)

def classify (t : Touch Float) : Command := .gesture <$> onContact (Gesture.classify t)

def dropContact : Command := quietly <| onParts (modify fun u => { u with contact := none })

def input (c : Input.Call Float) : Command :=
  quietly <| onParts (modify fun u => { u with input := c.run u.input })

/-- Frees the touch once the finger is up, and tells whether it did. -/
def freeTouch : Command := do
  let done := (← get).interface.input.touchDone
  discard (input .freeTouch)
  return .flag done

def cross (screen : Screen) : Command := .flag <$> onNavigation (Navigation.cross screen)

def shortcuts (screen : Screen) (dpadFree : Bool) : Command :=
  .screen <$> onNavigation (Navigation.shortcuts screen dpadFree)

def highlightScreen (screen : Screen) : Command :=
  quietly <| onNavigation (modify (Navigation.highlightScreen screen))

def controller (c : Controller.Call Float) : Command := quietly <| onController c.run

def whole (c : Interface.Call Float) : Command := .ofAnswer <$> onWhole c.run

end HandheldUI.Bench
