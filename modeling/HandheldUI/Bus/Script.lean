import HandheldUI.Bus

/-!
Scripted handlers. A handler follows its script in its first calls, as far as nothing is refused,
and may fail after each. What it does may reach further handlers, itself among them; the limits of
all scripts together bound how deep that goes.
-/

namespace HandheldUI

open HandheldUI.Log (Raised)

/-- What a handler does: `body` in its first `limit` calls, and then it fails if `failure` is
given. -/
structure Script (o : Type) where
  body : List o := []
  limit : Nat := 1
  failure : Option String := none
  deriving Repr

namespace Script

/-- One after the other, until one is refused. -/
def follow {o W α : Type} (perform : o → W → W × Except Raised α) : List o → W → W × Option Raised
  | [], w => (w, none)
  | o :: os, w =>
    match perform o w with
    | (w, .ok _) => follow perform os w
    | (w, .error x) => (w, some x)

/-- The `n`th call of a handler, counted from 1. -/
def call {o W α : Type} (perform : o → W → W × Except Raised α) (n : Nat) (s : Script o) (w : W) :
    W × Option Raised :=
  let (w, refused) := if n ≤ s.limit then follow perform s.body w else (w, none)
  (w, refused <|> s.failure.map fun m => { message := m })

/-- Enough levels for scripts that call each other: each level uses up a call of some script. -/
def levels {o : Type} (scripts : List (Script o)) : Nat :=
  scripts.foldl (fun n s => n + s.limit) 1

end Script

namespace Bus

/-- What a script does with a bus. A subscription may be kept under a name, to be cancelled by it.
-/
inductive Deed (P : Type) where
  | call (c : Call String String P)
  | keep (topic handler name : String)
  | keepOnce (topic handler name : String)
  | cancelKept (name : String)
  | count (topic : String)
  deriving Repr

/-- A bus with scripted handlers, and what has been seen of them. -/
structure Stage (P : Type) where
  bus : Bus String String := {}
  scripts : List (String × Script (Deed P))
  kept : List (String × Subscription String String) := []
  calls : List String := []
  reached : List (String × P) := []
  failures : List (Failure String) := []

namespace Stage

variable {P : Type}

/-- How a deed ends. The answer is that of `count`. -/
abbrev Ending := Except Raised (Option Nat)

def script (w : Stage P) (handler : String) : Script (Deed P) := (w.scripts.lookup handler).getD {}

def levels (w : Stage P) : Nat := Script.levels (w.scripts.map (·.2))

def keep (name : String) (x : Except Raised (Subscription String String) × Bus String String)
    (w : Stage P) : Stage P × Ending :=
  let w := { w with bus := x.2 }
  match x.1 with
  | .ok s => ({ w with kept := (name, s) :: w.kept }, .ok none)
  | .error x => (w, .error x)

/-- A handler is called while an event is being published. -/
def reach (perform : Deed P → Stage P → Stage P × Ending) (d : Delivery String String P)
    (b : Bus String String) (w : Stage P) : Stage P × Option Raised × Bus String String :=
  let h := d.subscriber.handler
  let w := { w with bus := b, calls := h :: w.calls, reached := w.reached ++ [(h, d.payload)] }
  let (w, failure) := (w.script h).call perform (w.calls.count h) w
  (w, failure, w.bus)

def fail (f : Failure String) (_ : Bus String String) (w : Stage P) : Stage P :=
  { w with failures := w.failures ++ [f] }

/-- Makes a call of the bus. -/
def call (perform : Deed P → Stage P → Stage P × Ending) (c : Call String String P) (w : Stage P) :
    Stage P × Ending :=
  let (w, b, ending) := (c.run.run none w.bus).play fail (reach perform) w
  ({ w with bus := b }, ending.map fun _ => none)

/-- Does one deed, down to `n` levels of handlers. -/
def perform : Nat → Deed P → Stage P → Stage P × Ending
  | 0, _, w => (w, .ok none)
  | n + 1, d, w =>
    match d with
    | .call c => w.call (perform n) c
    | .keep e h name => w.keep name (w.bus.subscribe e h)
    | .keepOnce e h name => w.keep name (w.bus.subscribeOnce e h)
    | .cancelKept name =>
      match w.kept.lookup name with
      | some s => w.call (perform n) (.cancel s)
      | none => (w, .ok none)
    | .count e => (w, .ok (w.bus.count e))

/-- One deed from outside, with nothing seen before it. -/
def step (d : Deed P) (w : Stage P) : Stage P × Ending :=
  perform w.levels d { w with reached := [], failures := [] }

end Stage

end Bus

end HandheldUI
