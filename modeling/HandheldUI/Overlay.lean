import HandheldUI.Focus

/-!
Overlays that cover the focus while they are shown. A guard stands for one overlay: it covers the
focus once when the overlay is raised, and when the overlay is lowered it takes a cover off only if
its own was accepted.
-/

namespace HandheldUI

inductive Overlay where
  | errorPopup | debugMenu | connection
  deriving DecidableEq, Repr

def Overlay.all : List Overlay := [errorPopup, debugMenu, connection]

def Overlay.name : Overlay → String
  | errorPopup => "error-popup"
  | debugMenu => "debug-menu"
  | connection => "connection-overlay"

structure Guard where
  overlay : Overlay
  /-- The overlay is shown, with or without the focus. -/
  shown : Bool := false
  /-- The overlay holds a cover of the focus. -/
  holds : Bool := false
  deriving DecidableEq, Repr

namespace Guard

inductive Event where
  | raised (o : Overlay) (holds : Bool)
  | lowered (o : Overlay)
  /-- Shown without a cover: what lies below keeps its input. -/
  | unfocused (o : Overlay)
  deriving DecidableEq, Repr

inductive Note where
  | raised (o : Overlay) (holds : Bool)
  | lowered (o : Overlay)
  | unfocused (o : Overlay)
  deriving DecidableEq, Repr

def Event.name : Event → String
  | raised _ _ => "activate"
  | lowered _ => "deactivate"
  | unfocused _ => "error"

def unfocusedFault {α : Type} (o : Overlay) : Fault (Log.Context α) where
  code := .unfocusedOverlay
  message := "Overlay shown without a focus entry"
  context := some [("overlay", .text o.name)]

def Note.line {α : Type} : Note → Log.Line (Log.Arg α)
  | raised o holds => ⟨.debug, "activate", [.value (.text o.name), .value (.flag holds)]⟩
  | lowered o => ⟨.debug, "deactivate", [.value (.text o.name)]⟩
  | unfocused o => (unfocusedFault o).line .error

/-- A guard and the focus that it covers. -/
structure Seat where
  guard : Guard
  focus : Focus
  deriving DecidableEq, Repr

abbrev Op := Action Unit Seat (Focus.Event ⊕ Event) (Focus.Note ⊕ Note)

def focusView : View Unit Seat Unit Focus where
  env _ _ := ()
  get s := s.focus
  put f s := { s with focus := f }

def onFocus {β : Type} (op : Focus.Op β) : Op β := op.within focusView .inl .inl

def update (f : Guard → Guard) : Op Unit := modify fun s => { s with guard := f s.guard }

/-- Shows the overlay. Doing so again changes nothing. -/
def raise : Op Unit := do
  if (← get).guard.shown then return
  update fun g => { g with shown := true }
  let accepted ← onFocus Focus.cover
  update fun g => { g with holds := accepted }
  if !accepted then
    let g := (← get).guard
    .say (.inr (.unfocused g.overlay))
    .announce (.inr (.unfocused g.overlay))
  let g := (← get).guard
  .say (.inr (.raised g.overlay g.holds))
  .announce (.inr (.raised g.overlay g.holds))

/-- Hides the overlay and gives its cover back. -/
def lower : Op Unit := do
  let g := (← get).guard
  if !g.shown then return
  update fun g => { g with shown := false }
  if g.holds then
    update fun g => { g with holds := false }
    discard (onFocus Focus.uncover)
  .say (.inr (.lowered g.overlay))
  .announce (.inr (.lowered g.overlay))

inductive Call where
  | raise
  | lower
  deriving DecidableEq, Repr

def Call.run : Call → Op Unit
  | raise => Guard.raise
  | lower => Guard.lower

end Guard

/-- Guards, each with a label of its own, over one focus. -/
structure Deck (ι : Type) where
  focus : Focus := {}
  guards : ι → Guard

namespace Deck

variable {ι : Type}

inductive Event (ι : Type) where
  | focus (e : Focus.Event)
  | guard (i : ι) (e : Guard.Event)
  deriving DecidableEq, Repr

inductive Note (ι : Type) where
  | focus (n : Focus.Note)
  | guard (i : ι) (n : Guard.Note)
  deriving DecidableEq, Repr

def Event.ofSeat (i : ι) : Focus.Event ⊕ Guard.Event → Event ι
  | .inl e => .focus e
  | .inr e => .guard i e

def Note.ofSeat (i : ι) : Focus.Note ⊕ Guard.Note → Note ι
  | .inl n => .focus n
  | .inr n => .guard i n

abbrev Op (ι : Type) := Action Unit (Deck ι) (Event ι) (Note ι)

def focusView : View Unit (Deck ι) Unit Focus where
  env _ _ := ()
  get d := d.focus
  put f d := { d with focus := f }

variable [DecidableEq ι]

def putSeat (i : ι) (s : Guard.Seat) (d : Deck ι) : Deck ι :=
  { focus := s.focus, guards := fun j => if j = i then s.guard else d.guards j }

def seatView (i : ι) : View Unit (Deck ι) Unit Guard.Seat where
  env _ _ := ()
  get d := ⟨d.guards i, d.focus⟩
  put := putSeat i
  get_put _ _ := by simp [putSeat]
  put_get d := by
    have h : (fun j => if j = i then d.guards i else d.guards j) = d.guards := by
      funext j; split <;> simp_all
    simp [putSeat, h]
  put_put s u d := by
    have h : (fun j => if j = i then s.guard else if j = i then u.guard else d.guards j) =
        fun j => if j = i then s.guard else d.guards j := by
      funext j; split <;> rfl
    simp [putSeat, h]

def onFocus {β : Type} (op : Focus.Op β) : Op ι β := op.within focusView .focus .focus

def onGuard {β : Type} (i : ι) (op : Guard.Op β) : Op ι β :=
  op.within (seatView i) (.ofSeat i) (.ofSeat i)

/-- What may be asked of the guards and of the focus. -/
inductive Call (ι α : Type) where
  | guard (i : ι) (c : Guard.Call)
  | focus (c : Focus.Call α)
  deriving Repr

def Call.run {α : Type} [Scalar α] : Call ι α → Op ι (Option Bool)
  | guard i c => onGuard i c.run *> pure none
  | focus c => onFocus c.run

end Deck

end HandheldUI
