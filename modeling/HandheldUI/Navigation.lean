import HandheldUI.Focus
import HandheldUI.Input
import HandheldUI.Sidebar

/-!
Moving between the sidebar and the content. Crossing over comes first in a frame and takes the focus
from the sidebar into the content; the shortcuts are the remaining input of a screen that shows the
sidebar. A touch that acts on the sidebar is barred until the finger is up, so that the same contact
never lands on the content too.
-/

namespace HandheldUI.Navigation

structure State (α : Type) where
  focus : Focus
  input : Input α
  sidebar : Sidebar.State α
  /-- The icon that is highlighted. -/
  icon : Nat := 0
  deriving Repr

/-- The time, the settings, and whether an overlay swallows the input. -/
structure Env (α : Type) where
  now : α
  settings : Settings α
  muted : Bool

inductive Event where
  | focus (e : Focus.Event)
  | sidebar (e : Sidebar.Event)
  deriving DecidableEq, Repr

inductive Note where
  | focus (n : Focus.Note)
  | sidebar (n : Sidebar.Note)
  | crossed (zone : Zone) (screen : Screen)
  | chose (icon : Nat)
  deriving DecidableEq, Repr

def crossedLine {α : Type} (zone : Zone) (screen : Screen) : Log.Line (Log.Arg α) :=
  ⟨.debug, "nav-bar ->",
    [.value (.text zone.name), .value (.text "on"), .value (.text screen.name)]⟩

def choseLine {α : Type} (icon : Nat) : Log.Line (Log.Arg α) :=
  ⟨.debug, "icon", [.value (.count icon), .value (.text "selected")]⟩

variable {α : Type}

abbrev Op (α : Type) := Action (Env α) (State α) Event Note

def focusView : View (Env α) (State α) Unit Focus where
  env _ _ := ()
  get s := s.focus
  put f s := { s with focus := f }

def sidebarView : View (Env α) (State α) (Sidebar.Env α) (Sidebar.State α) where
  env r _ := ⟨r.now, r.settings⟩
  get s := s.sidebar
  put b s := { s with sidebar := b }

def onFocus {β : Type} (op : Focus.Op β) : Op α β := op.within focusView .focus .focus

def onSidebar {β : Type} (op : Sidebar.Op α β) : Op α β := op.within sidebarView .sidebar .sidebar

def onInput (f : Input α → Input α) : Op α Unit := modify fun s => { s with input := f s.input }

def pressed (b : Button) : Op α Bool := do
  return (← get).input.pressed (← read).muted b

def highlight (icon : Nat) : Op α Unit := modify fun s => { s with icon }

variable [Scalar α]

/-- Moves the focus from the sidebar into the content of `screen`; `true` if that was this frame's
input. -/
def cross (screen : Screen) : Op α Bool := do
  let s ← get
  if s.focus.isCovered then return false
  else if s.focus.inSidebar && (← pressed .right) then
    onFocus (Focus.toContent screen)
    onSidebar (Sidebar.collapse true)
    .say (.crossed (← get).focus.zone screen)
    return true
  else return false

/-- The pill is there, and the point is on it or close to it. -/
def onPill (p : Point α) (s : State α) : Bool :=
  s.sidebar.isIn &&
    ((Sidebar.pillRect s.sidebar.look.pill).pad (Scalar.ofNat Sidebar.pillMargin)).contains p

/-- The first icon under a point. -/
def iconUnder? (p : Point α) : Option Nat :=
  (Sidebar.icons (α := α)).findIdx? fun i => p.isNear i.center (Scalar.ofNat Sidebar.iconRadius)

def iconCount : Nat := Screen.inSidebar.length

def iconScreen (icon : Nat) : Screen := Screen.inSidebar.getD icon .main

/-- The screen that the D-pad chooses, if it does. -/
def dpad (screen : Screen) : Op α (Option Screen) := do
  if (← get).sidebar.isIn then
    if (← get).focus.inSidebar then
      if (← pressed .cross) || (← pressed .left) then
        onSidebar Sidebar.expand
        return none
      if ← pressed .right then
        onFocus (Focus.toContent screen)
    else if ← pressed .left then
      onFocus Focus.toSidebar
    return none
  if ← pressed .left then
    onFocus Focus.toSidebar
  else if (← pressed .right) && (← get).focus.inSidebar then
    onFocus (Focus.toContent screen)
    onSidebar (Sidebar.collapse true)
  if (← get).focus.inSidebar then
    let icon := (← get).icon
    if ← pressed .up then highlight ((icon + iconCount - 1) % iconCount)
    else if ← pressed .down then highlight ((icon + 1) % iconCount)
    if ← pressed .cross then
      let icon := (← get).icon
      .say (.chose icon)
      return some (iconScreen icon)
  return none

/-- What a touch that counts does to the sidebar: `none` if the frame's input goes on, else the
screen that it chooses, if it does. -/
def touchSidebar (t : Touch α) : Op α (Option (Option Screen)) := do
  if !t.down then return none
  let s ← get
  if onPill t.point s then
    onSidebar Sidebar.expand
    onInput Input.barTouch
    return some none
  if s.sidebar.isOut then
    match iconUnder? t.point with
    | some icon =>
      highlight icon
      onFocus Focus.toSidebar
      onInput Input.barTouch
      return some (some (iconScreen icon))
    | none =>
      if Scalar.ofNat Sidebar.fullWidth < t.point.x then
        onSidebar (Sidebar.collapse true)
        onInput Input.barTouch
  return none

/-- The sidebar's input on `screen`, with the screen to go to as the answer. The D-pad counts only
if the screen leaves it free. -/
def shortcuts (screen : Screen) (dpadFree : Bool) : Op α (Option Screen) := do
  if (← get).focus.isCovered then return none
  if ← pressed .triangle then onSidebar Sidebar.flip
  let input := (← get).input
  if input.touchBarred && !input.touchDone then return none
  onInput Input.freeTouch
  match ← touchSidebar input.touch with
  | some answer => return answer
  | none => if dpadFree then dpad screen else return none

/-- Highlights the icon of `screen`, if it has one. -/
def highlightScreen (screen : Screen) (s : State α) : State α :=
  match Screen.inSidebar.findIdx? (· = screen) with
  | some icon => { s with icon }
  | none => s

end HandheldUI.Navigation
