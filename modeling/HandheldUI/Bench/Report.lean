import HandheldUI.Bench.Run

/-!
Setting up the bench, and what it shows of its parts.
-/

namespace HandheldUI.Bench

/-- A handler to subscribe: to which events, whether for one call only, and its script. -/
structure Hook where
  topic : Topic
  once : Bool := false
  script : Script Command

/-- A bench as it is set up, its handlers subscribed in order. -/
def World.start (s : Setup) (dials : Dials) (selection : Selection) (hooks : List Hook) :
    World where
  scene :=
    { dials
      guards := fun label => { overlay := (s.guards.lookup label).getD .errorPopup }
      selection }
  bus := hooks.zipIdx.foldl
    (fun b (h, i) => if h.once then (b.subscribeOnce h.topic i).2 else (b.subscribe h.topic i).2) {}
  scripts := (hooks.map (·.script)).toArray

/-- The state of one part. -/
inductive Report where
  | clock (us : Float)
  | wave (p : Sidebar.Phases Float)
  | sidebar (s : Sidebar.State Float) (toastOpacity : Float)
  | focus (f : Focus)
  | guard (g : Guard)
  | selection (s : Selection)
  | contact (c : Option (Contact Float Float))
  /-- The input, and the buttons with an edge downward or upward. -/
  | input (i : Input Float) (pressed released : List Button)
  | controller (p : Controller.Pages Float) (diagram : Rect Float)
  | highlight (icon : Nat)
  | whole (icon : Nat) (raw : Controls Float)

/-- A part under the name that it has on the bench. -/
inductive Part where
  | clock | wave | sidebar | focus | selection | contact | input | controller | highlight | whole
  | guard (label : String)
  | panel (p : Controller.Panel)
  deriving DecidableEq, Repr

def Part.name : Part → String
  | clock => "clock"
  | wave => "wave"
  | sidebar => "nav"
  | focus => "focus"
  | selection => "grid"
  | contact => "gesture"
  | input => "input"
  | controller => "mapping"
  | highlight => "shortcuts"
  | whole => "ui"
  | guard label => label
  | panel p => p.name

/-- The parts that are there. -/
def Setup.parts (s : Setup) : List Part :=
  match s.kind with
  | .clock => [.clock]
  | .wave => [.clock, .wave]
  | .sidebar => [.clock, .wave, .sidebar]
  | .focus => [.focus]
  | .guard => .focus :: s.guards.map fun (label, _) => .guard label
  | .selection => [.selection]
  | .gesture => [.contact]
  | .input => [.input]
  | .navigation => [.clock, .focus, .input, .wave, .sidebar, .highlight]
  | .controller => [.input, .focus, .panel .front, .panel .rear, .controller]
  | .whole =>
    [.clock, .focus, .sidebar, .wave, .input, .panel .front, .panel .rear, .contact, .controller,
      .whole] ++ Overlay.all.map fun o => .guard (overlayLabel o)

def Part.report (s : Setup) (t : Scene) (p : Part) : Report :=
  let a : Around := ⟨s, t.dials⟩
  let u := t.interface
  match p with
  | clock => .clock t.dials.clock
  | wave => .wave u.sidebar.wave.phases
  | sidebar => .sidebar u.sidebar (Sidebar.toastOpacity t.dials.clock u.sidebar)
  | focus => .focus u.focus
  | selection => .selection t.selection
  | contact => .contact u.contact
  | input =>
    let muted := a.muted u
    .input u.input (Button.all.filter (u.input.pressed muted ·))
      (Button.all.filter (u.input.released muted ·))
  | controller => .controller u.pages (Controller.diagram (a.sidebarWidth u))
  | highlight => .highlight u.icon
  | whole => .whole u.icon u.raw
  | guard label => .guard (guardAt a label t)
  | panel p => .selection (u.selections.get p)

/-- The names and the states of all parts. -/
def World.reports (s : Setup) (w : World) : List (String × Report) :=
  s.parts.map fun p => (p.name, p.report s w.scene)

end HandheldUI.Bench
