import HandheldUI.Controller.Diagram
import HandheldUI.Input
import HandheldUI.Selection

/-!
The controller screen. Its summary opens the grid of a panel at a touch on the diagram. On a grid,
cells are selected by dragging a finger, or by holding Cross and moving the cursor; lifting the
finger or Cross hands the whole selection to the mapping popup and clears the grid.
-/

namespace HandheldUI.Controller

/-- What the controller screen shows. -/
inductive Page where
  | summary
  | grid (panel : Panel)
  deriving DecidableEq, Repr

def Page.all : List Page := [.summary, .grid .front, .grid .rear]

def Page.name : Page → String
  | summary => "summary"
  | grid .front => "front-mapping"
  | grid .rear => "rear-mapping"

/-- One value for each panel. -/
structure PerPanel (β : Type) where
  front : β
  rear : β
  deriving Repr, DecidableEq

namespace PerPanel

variable {β : Type}

def get (p : Panel) (b : PerPanel β) : β :=
  match p with
  | .front => b.front
  | .rear => b.rear

def update (p : Panel) (f : β → β) (b : PerPanel β) : PerPanel β :=
  match p with
  | .front => { b with front := f b.front }
  | .rear => { b with rear := f b.rear }

end PerPanel

/-- How a grid is being dragged over. -/
structure Drag (α : Type) where
  cursor : α
  /-- A finger drags across the grid. -/
  touching : Bool := false
  /-- Cross is held, and the cursor selects. -/
  holding : Bool := false
  deriving Repr

structure Pages (α : Type) where
  page : Page := .summary
  /-- The panel whose grid a touch on the summary opens. -/
  opens : Panel := .front
  /-- The finger was down on the summary in the last frame. -/
  touched : Bool := false
  drags : PerPanel (Drag α)
  deriving Repr

structure State (α : Type) where
  pages : Pages α
  selections : PerPanel Selection
  input : Input α
  deriving Repr

/-- Who else wants the input, and how wide the sidebar is. -/
structure Env (α : Type) where
  popup : Bool
  covered : Bool
  muted : Bool
  sidebarWidth : α

inductive Event where
  | turned (old new : Page)
  /-- Asks for the mapping popup; for any touch on the panel if `whole`. -/
  | mapping (panel : Panel) (cells : List Nat) (whole : Bool)
  /-- Asks to forget the mappings of a panel. -/
  | unmapping (panel : Panel)
  deriving DecidableEq, Repr

inductive Note (α : Type) where
  | turned (old new : Page)
  | selected (panel : Panel) (cells : List Nat)
  | outOfRange (panel : Panel) (o : Selection.OutOfRange α)
  deriving Repr

def Event.name : Event → String
  | turned _ _ => "viewChange"
  | mapping _ _ _ => "mappingRequested"
  | unmapping _ => "clearMappingsRequested"

variable {α : Type}

def Note.line : Note α → Log.Line (Log.Arg α)
  | turned old new =>
    ⟨.debug, "view", [.value (.text old.name), .value (.text "->"), .value (.text new.name)]⟩
  | selected p cells => ⟨.debug, "selection", [.value (.text p.name), .cells cells]⟩
  | outOfRange p o => o.line p.name

abbrev Op (α : Type) := Action (Env α) (State α) Event (Note α)

def selectionView (p : Panel) : View (Env α) (State α) Unit Selection where
  env _ _ := ()
  get s := s.selections.get p
  put g s := { s with selections := s.selections.update p fun _ => g }
  get_put := by cases p <;> intros <;> rfl
  put_get := by cases p <;> intros <;> rfl
  put_put := by cases p <;> intros <;> rfl

def onSelection {β : Type} (p : Panel) (op : Selection.Op α β) : Op α β :=
  op.within (selectionView p) Empty.elim (.outOfRange p)

def clear (p : Panel) : Op α Unit :=
  modify fun s => { s with selections := s.selections.update p Selection.clear }

def onInput (f : Input α → Input α) : Op α Unit := modify fun s => { s with input := f s.input }

def onPages (f : Pages α → Pages α) : Op α Unit := modify fun s => { s with pages := f s.pages }

def onDrag (p : Panel) (f : Drag α → Drag α) : Op α Unit :=
  onPages fun m => { m with drags := m.drags.update p f }

def drag (p : Panel) : Op α (Drag α) := do
  return (← get).pages.drags.get p

def pressed (b : Button) : Op α Bool := do
  return (← get).input.pressed (← read).muted b

def released (b : Button) : Op α Bool := do
  return (← get).input.released (← read).muted b

/-- Drops all selections and all drags; the cursors stay. -/
def startAfresh : Op α Unit := do
  clear .front
  clear .rear
  onDrag .front fun d => { d with touching := false, holding := false }
  onDrag .rear fun d => { d with touching := false, holding := false }
  onPages fun m => { m with touched := false }

/-- Chooses the grid that a touch on the summary opens. -/
def preselect (p : Panel) : Op α Unit := onPages fun m => { m with opens := p }

/-- Hands over what is selected, if anything is, and clears the grid. -/
def handOver (p : Panel) : Op α Unit := do
  let cells := ((← get).selections.get p).toList
  clear p
  if cells ≠ [] then
    .say (.selected p cells)
    .announce (.mapping p cells false)

variable [Scalar α]

def Pages.initial : Pages α := { drags := ⟨{ cursor := 0 }, { cursor := 0 }⟩ }

/-- Nothing selected on either panel. -/
def unselected : PerPanel Selection := ⟨.empty Panel.front.cells, .empty Panel.rear.cells⟩

/-- Shows another page. Selections start afresh, and so does the cursor of a grid that is shown. -/
def turnTo (new : Page) : Op α Unit := do
  let old := (← get).pages.page
  startAfresh
  onPages fun m => { m with page := new }
  if let .grid p := new then onDrag p fun d => { d with cursor := 0 }
  if old ≠ new then
    .say (.turned old new)
    .announce (.turned old new)

/-- Moves the cursor, going round at the edges. -/
def step (p : Panel) (rows cols : α) : Op α Unit :=
  onDrag p fun d => { d with cursor := p.layout.neighbor d.cursor rows cols }

/-- A touch on the summary, which opens a grid where the finger comes down on the diagram. That
touch must not start a selection too. -/
def summaryTouch (d : Rect α) : Op α Unit := do
  let input := (← get).input
  if input.touchBarred && !input.touchDone then return
  onInput Input.freeTouch
  if !input.touch.down then
    onPages fun m => { m with touched := false }
  else if !(← get).pages.touched then
    onPages fun m => { m with touched := true }
    if d.contains input.touch.point then
      turnTo (.grid (← get).pages.opens)
      onInput Input.barTouch

/-- A finger on the grid: it starts a selection where it comes down, adds to it, and hands it over
when it is lifted. -/
def dragTouch (p : Panel) (d : Rect α) : Op α Unit := do
  let input := (← get).input
  if input.touchBarred && !input.touchDone then return
  onInput Input.freeTouch
  if input.touch.down then
    if !(← drag p).touching then
      onDrag p fun d => { d with touching := true }
      clear p
    if let some cell := p.layout.cellAt? d input.touch.point then
      if 0 ≤ cell then
        onSelection p (Selection.reach cell)
        onDrag p fun d => { d with cursor := cell }
  else if (← drag p).touching then
    onDrag p fun d => { d with touching := false }
    handOver p

/-- The D-pad moves the cursor by one cell. -/
def dpad (p : Panel) : Op α Unit := do
  if ← pressed .right then step p 0 1
  else if ← pressed .left then step p 0 (-1)
  else if ← pressed .down then step p 1 0
  else if ← pressed .up then step p (-1) 0

/-- Cross starts a selection at the cursor and hands it over when it is let go. -/
def holdCross (p : Panel) : Op α Unit := do
  if ← pressed .cross then
    onDrag p fun d => { d with holding := true }
    clear p
    onSelection p (Selection.reach (← drag p).cursor)
  else if (← drag p).holding && (← released .cross) then
    onDrag p fun d => { d with holding := false }
    handOver p

def gridInput (p : Panel) (d : Rect α) : Op α Unit := do
  dragTouch p d
  dpad p
  if (← drag p).holding && (← get).input.holds .cross then
    onSelection p (Selection.insert (← drag p).cursor)
  if ← pressed .triangle then .announce (.mapping p [] true)
  if ← pressed .square then .announce (.unmapping p)
  holdCross p

/-- The input of a frame. The popup and any overlay keep it from this screen. -/
def respond : Op α Unit := do
  let env ← read
  if env.popup || env.covered then return
  let d := diagram env.sidebarWidth
  match (← get).pages.page with
  | .summary => summaryTouch d
  | .grid p =>
    if ← pressed .circle then turnTo .summary
    else gridInput p d

/-- What may be asked of the controller screen. -/
inductive Call (α : Type) where
  | turnTo (page : Page)
  | preselect (p : Panel)
  | startAfresh
  | step (p : Panel) (rows cols : α)
  | respond
  deriving Repr

def Call.run : Call α → Op α Unit
  | turnTo page => Controller.turnTo page
  | preselect p => Controller.preselect p
  | startAfresh => Controller.startAfresh
  | step p rows cols => Controller.step p rows cols
  | respond => Controller.respond

end HandheldUI.Controller
