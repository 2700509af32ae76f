import HandheldUI.Bench.Command
import HandheldUI.Bus.Script

/-!
Running the bench: every event is noted down before its scripted handlers are reached, every line
that gets into a log is noted down too.
-/

namespace HandheldUI.Bench

/-- The part that an event comes from, as the bench calls it. -/
def Event.source : Event → String
  | interface (.focus _) => "focus"
  | interface (.overlay o _) => overlayLabel o
  | interface (.sidebar _) => "nav"
  | interface (.controller _) => "mapping"
  | guard label _ => label

def Event.name : Event → String
  | interface (.focus e) => e.name
  | interface (.overlay _ e) => e.name
  | interface (.sidebar e) => e.name
  | interface (.controller e) => e.name
  | guard _ e => e.name

/-- A kind of event: where it comes from, and its name. -/
structure Topic where
  source : String
  name : String
  deriving DecidableEq, Repr

/-- No part has an event of an inherited name. -/
instance : Topical Topic where
  inherited? _ := none

def Event.topic (e : Event) : Topic := ⟨e.source, e.name⟩

/-- A part that writes log lines. -/
inductive Author where
  | focus | guard | overlay (o : Overlay) | sidebar | crossing | shortcuts | selection | controller
  deriving DecidableEq, Repr

def Author.tag : Author → String
  | focus => "FocusStack"
  | guard => "ModalGuard"
  | overlay .errorPopup => "ErrorPopup"
  | overlay .debugMenu => "DebugMenu"
  | overlay .connection => "ConnectionOverlay"
  | sidebar => "NavCollapseAnimator"
  | crossing => "ZoneCrossingRouter"
  | shortcuts => "NavShortcutHandler"
  | selection => "SelectionGrid"
  | controller => "ControllerMappingCoordinator"

/-- The author of the lines about an event's handlers. -/
def Event.author : Event → Author
  | interface (.focus _) => .focus
  | interface (.overlay o _) => .overlay o
  | interface (.sidebar _) => .sidebar
  | interface (.controller _) => .controller
  | guard _ _ => .guard

abbrev Line := Log.Line (Log.Arg Float)

/-- What a remark is: a line of some author's log, or the point of a look-up. -/
def Note.line? (s : Setup) : Note → (Author × Line) ⊕ Point Float
  | interface (.focus n) => .inl (.focus, n.line)
  | interface (.overlay o n) => .inl (.overlay o, n.line)
  | interface (.sidebar n) => .inl (.sidebar, n.line)
  | interface (.crossed z sc) => .inl (.crossing, Navigation.crossedLine z sc)
  | interface (.chose i) => .inl (.shortcuts, Navigation.choseLine i)
  | interface (.controller (.outOfRange p o)) => .inl (.selection, o.line p.name)
  | interface (.controller n) => .inl (.controller, n.line)
  | interface (.lookedUp p) => .inr p
  | guard _ n => .inl (.guard, n.line)
  | outOfRange o => .inl (.selection, o.line (if s.bare then "grid" else s.gridName))

/-- An author without a logger of its own writes to the console. Its debug lines follow the settings
in the sidebar, in a focus tried on its own, and throughout the whole interface. -/
def sink (s : Setup) (d : Dials) (a : Author) : Log.Sink :=
  let console := Log.Sink.console a.tag
    (d.settings.verbose &&
      (s.kind = .whole || a = .sidebar || (s.kind = .focus && a = .focus)))
  if s.kind = .selection && s.bare then console
  else
    match s.logging with
    | .recording => .recording
    | .console => console
    | .silent => .silent

/-- What is noted down of a run, besides the log. -/
inductive Sight where
  | event (e : Event)
  | lookedUp (p : Point Float)

structure World where
  scene : Scene
  bus : Bus Topic Nat := {}
  /-- The scripts of the handlers, by number. -/
  scripts : Array (Script Command) := #[]
  calls : List Nat := []
  sights : List Sight := []
  lines : List Line := []

namespace World

def log (s : Setup) (d : Dials) (a : Author) (l : Line) (w : World) : World :=
  match (sink s d a).write l with
  | some l => { w with lines := w.lines ++ [l] }
  | none => w

def see (x : Sight) (w : World) : World := { w with sights := w.sights ++ [x] }

/-- A remark, made in a scene. -/
def hear (s : Setup) (n : Note) (t : Scene) (w : World) : World :=
  match n.line? s with
  | .inl (a, l) => w.log s t.dials a l
  | .inr p => w.see (.lookedUp p)

/-- A handler is called while an event is being published. -/
def reach (perform : Command → World → World) (d : Bus.Delivery Topic Nat Event) (b : Bus Topic Nat)
    (w : World) : World × Option Log.Raised × Bus Topic Nat :=
  let h := d.subscriber.handler
  let w := { w with bus := b, calls := h :: w.calls }
  let command (c : Command) (w : World) := (perform c w, Except.ok ())
  let (w, failure) := (w.scripts.getD h {}).call command (w.calls.count h) w
  (w, failure, w.bus)

def fail (s : Setup) (e : Event) (f : Bus.Failure Topic) (_ : Bus Topic Nat) (w : World) : World :=
  w.log s w.scene.dials e.author ⟨.error, Bus.Failure.text e.name, [.raised f.error]⟩

/-- An event: it is noted down and then published. -/
def tell (s : Setup) (perform : Command → World → World) (e : Event) (t : Scene) (w : World) :
    World × Setup × Scene :=
  let w := { w with scene := t }.see (.event e)
  let (w, b, _) := (w.bus.publish e.topic e).play (fail s e) (reach perform) w
  ({ w with bus := b }, s, w.scene)

/-- Performs a command, down to `n` levels of handlers. -/
def perform (s : Setup) : Nat → Command → World → World × Reply
  | 0, _, w => (w, .nothing)
  | n + 1, c, w =>
    let (w, t, r) :=
      (c.run s w.scene).play (hear s) (tell s fun c w => (perform s n c w).1) w
    ({ w with scene := t }, r)

def levels (w : World) : Nat := Script.levels w.scripts.toList

/-- One command from outside, with nothing noted down before it. -/
def step (s : Setup) (c : Command) (w : World) : World × Reply :=
  perform s w.levels c { w with sights := [], lines := [] }

end World

end HandheldUI.Bench
