import HandheldUI.Action
import HandheldUI.Log
import HandheldUI.Settings
import HandheldUI.Sidebar.Look
import HandheldUI.Sidebar.Wave

/-!
The sidebar in time. It collapses and expands on request, only from rest, so that nothing reverses
half-way; its progress is computed afresh from the clock, so that a late frame jumps ahead. The
first collapse that runs to its end shows a toast, once and for all. The wave moves only while the
sidebar is out and goes on where it stopped.
-/

namespace HandheldUI.Sidebar

structure Toast (α : Type) where
  /-- It has been shown, and never will be again. -/
  spent : Bool := false
  visible : Bool := false
  since : α
  deriving Repr

def fadeMs : Nat := 300
def holdMs : Nat := 2000
def toastMessage : String := "Menu hidden - tap pill or press Triangle to reopen"

structure State (α : Type) where
  phase : Phase
  /-- When the last request was granted. -/
  since : α
  /-- From 0 to 1 on the way to the end of the phase. -/
  progress : α
  /-- The wave as it was when the sidebar last began to collapse. -/
  stored : Phases α
  look : Look α
  toast : Toast α
  wave : Wave α
  deriving Repr

/-- The time in microseconds, and the settings. -/
structure Env (α : Type) where
  now : α
  settings : Settings α

inductive Event where
  | moved (old new : Phase)
  | toast
  deriving DecidableEq, Repr

inductive Note where
  | moved (old new : Phase)
  | pinned
  deriving DecidableEq, Repr

def Event.name : Event → String
  | moved _ _ => "stateChange"
  | toast => "toastShown"

variable {α : Type}

def Note.line : Note → Log.Line (Log.Arg α)
  | moved old new =>
    ⟨.debug, "state", [.value (.text old.name), .value (.text "->"), .value (.text new.name)]⟩
  | pinned => ⟨.debug, "collapse ignored: sidebar pinned", []⟩

variable [Scalar α]

def State.initial : State α where
  phase := .collapsed
  since := 0
  progress := 0
  stored := ⟨0, 0⟩
  look := .collapsed
  toast := { since := 0 }
  wave := .initial

namespace State

def isOut (s : State α) : Bool := s.phase = .expanded
def isIn (s : State α) : Bool := s.phase = .collapsed
def isMoving (s : State α) : Bool := s.phase.end?.isSome

/-- The content is dim behind a sidebar that is out. -/
def dimsContent (s : State α) : Bool := s.isOut

end State

abbrev Op (α : Type) := Action (Env α) (State α) Event Note

/-- Begins a phase now. The looks follow later. -/
def begin (new : Phase) : Op α Unit := do
  let s ← get
  set { s with phase := new, since := (← read).now, progress := 0 }
  .say (.moved s.phase new)
  .announce (.moved s.phase new)

/-- Asks for a collapse. A pinned sidebar ignores one that only using the content has caused. -/
def collapse (byContent : Bool) : Op α Unit := do
  if byContent && (← read).settings.pinned then
    .say .pinned
  else if (← get).isOut then
    modify fun s => { s with stored := s.wave.phases }
    begin .collapsing

def expand : Op α Unit := do
  if (← get).isIn then
    let now := (← read).now
    modify fun s => { s with wave := (s.wave.restore s.stored).restart now }
    begin .expanding

/-- Collapses or expands; nothing while the sidebar moves. -/
def flip : Op α Unit := do
  if (← get).isOut then collapse false
  else if (← get).isIn then expand

/-- Collapses at once. -/
def shut : Op α Unit := do
  let s ← get
  set { s with phase := .collapsed, progress := 0, look := .collapsed }
  if !s.isIn then
    .announce (.moved s.phase .collapsed)

/-- Shows the toast, unless it has been shown before. -/
def showToast : Op α Unit := do
  if !(← get).toast.spent then
    let now := (← read).now
    modify fun s => { s with toast := ⟨true, true, now⟩ }
    .announce .toast

/-- How far a phase has come that began at `since` and takes `slideMs`. One that takes no sensible
time is over at once. -/
def progressAt (slideMs since now : α) : α :=
  if Settings.sensible slideMs then Scalar.max 0 (now - since) / 1000 / slideMs else 1

/-- Brings a moving sidebar up to date, and ends its phase when its time is over. -/
def advance : Op α Unit := do
  let s ← get
  match s.phase.end? with
  | none => return
  | some target =>
    let env ← read
    let p := progressAt env.settings.slideMs s.since env.now
    let (p, phase) := if 1 ≤ p then (1, target) else (p, s.phase)
    set { s with phase, progress := p, look := .during phase p }
    if phase ≠ s.phase then
      .say (.moved s.phase phase)
      .announce (.moved s.phase phase)
      if (← get).isIn then showToast

def toastMs (now : α) (t : Toast α) : α := Scalar.max 0 (now - t.since) / 1000

/-- Takes the toast away when its time is over. -/
def fadeToast : Op α Unit := do
  let now := (← read).now
  let s ← get
  if s.toast.visible ∧ Scalar.ofNat (fadeMs * 2 + holdMs) ≤ toastMs now s.toast then
    set { s with toast := { s.toast with visible := false } }

/-- All that moves on from frame to frame. -/
def tick : Op α Unit := do
  advance
  fadeToast
  let now := (← read).now
  modify fun s => if s.isOut then { s with wave := s.wave.advance now } else s

/-- Fades in, holds, and fades out; 0 without a toast. -/
def toastOpacity (now : α) (s : State α) : α :=
  if !s.toast.visible then 0
  else
    let elapsed := toastMs now s.toast
    let fade := Scalar.ofNat fadeMs
    let fadeOut := Scalar.ofNat (fadeMs + holdMs)
    if elapsed < fade then elapsed / fade
    else if fadeOut < elapsed then Scalar.toUnit (1 - (elapsed - fadeOut) / fade)
    else 1

/-- What may be asked of the sidebar. -/
inductive Call where
  | collapse (byContent : Bool)
  | expand
  | flip
  | shut
  | advance
  | fadeToast
  | tick
  deriving DecidableEq, Repr

def Call.run : Call → Op α Unit
  | collapse byContent => Sidebar.collapse byContent
  | expand => Sidebar.expand
  | flip => Sidebar.flip
  | shut => Sidebar.shut
  | advance => Sidebar.advance
  | fadeToast => Sidebar.fadeToast
  | tick => Sidebar.tick

end HandheldUI.Sidebar
