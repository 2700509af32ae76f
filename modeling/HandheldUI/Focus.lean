import HandheldUI.Action
import HandheldUI.Fault
import HandheldUI.Scalar
import HandheldUI.Screen

/-!
The focus. Its base owner is a zone of the screen; every overlay that is shown covers what lies
below it, and the topmost owner gets the input. There is room for a few covers only: one too many
is refused, and so is taking one off where there is none.
-/

namespace HandheldUI

/-- The owner of the input, and which of its items is meant. -/
structure Owner where
  zone : Zone := .main
  item : Nat := 0
  deriving DecidableEq, Repr

structure Focus where
  base : Owner := {}
  /-- The overlays above, the topmost first. -/
  covers : List Owner := []
  deriving DecidableEq, Repr

namespace Focus

/-- Room for the base and three covers. -/
def capacity : Nat := 4

def depth (f : Focus) : Nat := f.covers.length

def isFull (f : Focus) : Bool := capacity ≤ f.depth + 1

def top (f : Focus) : Owner := f.covers.headD f.base

def setTop (o : Owner) (f : Focus) : Focus :=
  match f.covers with
  | [] => { f with base := o }
  | _ :: rest => { f with covers := o :: rest }

/-- All owners, the base first. -/
def owners (f : Focus) : List Owner := f.base :: f.covers.reverse

def zone (f : Focus) : Zone := f.top.zone
def item (f : Focus) : Nat := f.top.item
def isCovered (f : Focus) : Bool := 0 < f.depth ∧ f.zone = .overlay
def inSidebar (f : Focus) : Bool := f.zone = .sidebar
def inContent (f : Focus) : Bool := f.zone ≠ .sidebar ∧ f.zone ≠ .overlay

/-- The item that any number means: its integer part, and 0 if it is below 0 or not finite. -/
def itemOf {α : Type} [Scalar α] (x : α) : Nat := ((Scalar.truncate? x).getD 0).toNat

/-- Why a cover was not put on or not taken off. -/
inductive Refusal where
  | full (depth : Nat)
  | bare (depth : Nat)
  deriving DecidableEq, Repr

inductive Event where
  | covered (depth : Nat)
  | uncovered (depth : Nat)
  | moved (old new : Zone)
  | refused (why : Refusal)
  deriving DecidableEq, Repr

inductive Note where
  | moved (old new : Zone)
  /-- A zone below the cover cannot take the focus. -/
  | kept (zone : Zone) (depth : Nat)
  | covered (depth : Nat)
  | uncovered (depth : Nat)
  | refused (why : Refusal)
  deriving DecidableEq, Repr

def Event.name : Event → String
  | covered _ => "modalPush"
  | uncovered _ => "modalPop"
  | moved _ _ => "zoneChange"
  | refused _ => "error"

def Refusal.fault {α : Type} : Refusal → Fault (Log.Context α)
  | full d =>
    { code := .focusFull
      message := "Focus stack overflow"
      context := some [("depth", .count d), ("capacity", .count capacity)] }
  | bare d =>
    { code := .focusBare
      message := "Focus stack underflow"
      context := some [("depth", .count d)] }

def Note.line {α : Type} : Note → Log.Line (Log.Arg α)
  | moved old new =>
    ⟨.debug, "zone", [.value (.text old.name), .value (.text "->"), .value (.text new.name)]⟩
  | kept z d =>
    ⟨.warn, "Ignoring zone change under a modal",
      [.context [("zone", .text z.name), ("depth", .count d)]]⟩
  | covered d => ⟨.debug, "pushModal depth", [.value (.count d)]⟩
  | uncovered d => ⟨.debug, "popModal depth", [.value (.count d)]⟩
  | refused why => why.fault.line .error

abbrev Op := Action Unit Focus Event Note

/-- Gives the input to a zone. Under a cover only the overlay's own zone is accepted. -/
def give (z : Zone) : Op Unit := do
  let f ← get
  if 0 < f.depth ∧ z ≠ .overlay then
    .say (.kept z f.depth)
  else
    set (f.setTop { f.top with zone := z })
    if f.zone ≠ z then
      .say (.moved f.zone z)
      .announce (.moved f.zone z)

def toSidebar : Op Unit := give .sidebar

def toContent (screen : Screen) : Op Unit := give screen.content

def pointAt (item : Nat) (f : Focus) : Focus := f.setTop { f.top with item }

def refuse (why : Refusal) : Op Bool := do
  .say (.refused why)
  .announce (.refused why)
  return false

/-- Covers what has the focus; `false` if there is no room. -/
def cover : Op Bool := do
  let f ← get
  if f.isFull then refuse (.full f.depth)
  else
    let f := { f with covers := { zone := .overlay } :: f.covers }
    set f
    .announce (.covered f.depth)
    .say (.covered (← get).depth)
    return true

/-- Takes the topmost cover off; `false` if there is none. -/
def uncover : Op Bool := do
  let f ← get
  if f.depth = 0 then refuse (.bare f.depth)
  else
    let f := { f with covers := f.covers.tail }
    set f
    .announce (.uncovered f.depth)
    .say (.uncovered (← get).depth)
    return true

/-- What may be asked of the focus. An item is any number. -/
inductive Call (α : Type) where
  | give (z : Zone)
  | pointAt (x : α)
  | toSidebar
  | toContent (screen : Screen)
  | cover
  | uncover
  deriving Repr

/-- Only a cover put on or taken off has an answer. -/
def Call.run {α : Type} [Scalar α] : Call α → Op (Option Bool)
  | give z => Focus.give z *> pure none
  | pointAt x => modify (Focus.pointAt (itemOf x)) *> pure none
  | toSidebar => Focus.toSidebar *> pure none
  | toContent s => Focus.toContent s *> pure none
  | cover => some <$> Focus.cover
  | uncover => some <$> Focus.uncover

end Focus

end HandheldUI
