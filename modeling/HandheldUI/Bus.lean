import HandheldUI.Action
import HandheldUI.Log

/-!
A bus that carries events to subscribers. A handler may be subscribed to a topic once; a
subscription for one call stands for itself and goes away before that call. An event reaches those
subscribed when it is published, whatever they do to the bus meanwhile, and one that fails keeps
nobody else from being reached.

The subscribers stand in a table under the names of the topics. A table inherits some names, and
what it has there is taken for a set of subscribers, which it is not.
-/

namespace HandheldUI

open HandheldUI.Log (Raised)

/-- The names of topics. -/
class Topical (E : Type) where
  /-- Under a name that a table inherits: how many entries what stands there has. -/
  inherited? : E → Option Nat

namespace Topical

/-- What a table inherits under names that are texts. Most of it are functions, and a function has
as many entries as it takes arguments. -/
def inherited : List (String × Nat) :=
  [("__defineGetter__", 2), ("__defineSetter__", 2), ("__lookupGetter__", 1),
    ("__lookupSetter__", 1), ("__proto__", 0), ("constructor", 1), ("hasOwnProperty", 1),
    ("isPrototypeOf", 1), ("propertyIsEnumerable", 1), ("toLocaleString", 0), ("toString", 0),
    ("valueOf", 0)]

instance : Topical String where
  inherited? e := inherited.lookup e

end Topical

/-- Who is subscribed: a handler, or a handler for one call under a number of its own. -/
inductive Subscriber (H : Type) where
  | lasting (handler : H)
  | single (serial : Nat) (handler : H)
  deriving DecidableEq, Repr

def Subscriber.handler {H : Type} : Subscriber H → H
  | lasting h => h
  | single _ h => h

/-- A subscription. Whoever made it may cancel it. -/
structure Subscription (E H : Type) where
  topic : E
  subscriber : Subscriber H
  deriving DecidableEq, Repr

structure Bus (E H : Type) where
  /-- All subscriptions, the oldest first. -/
  subscriptions : List (Subscription E H) := []
  /-- The number of the next subscription for one call. -/
  serial : Nat := 0
  deriving Repr

namespace Bus

open Topical (inherited?)

variable {E H P : Type} [DecidableEq E] [DecidableEq H] [Topical E]

def subscribers (b : Bus E H) (e : E) : List (Subscriber H) :=
  (b.subscriptions.filter (·.topic = e)).map (·.subscriber)

/-- How many subscribers there are. What is inherited has no such number. -/
def count (b : Bus E H) (e : E) : Option Nat :=
  match inherited? e with
  | none => some (b.subscribers e).length
  | some _ => none

/-- What is inherited under a name cannot do what a set of subscribers can. -/
def noSet (method : String) : Raised where
  kind := "TypeError"
  message := "handlerSet." ++ method ++ " is not a function"

/-- An entry of what is inherited cannot be called. -/
def noHandler : Raised where
  kind := "TypeError"
  message := "handler is not a function"

/-- A subscription that is there already keeps its place. -/
def add (s : Subscription E H) (b : Bus E H) : Bus E H :=
  if s ∈ b.subscriptions then b else { b with subscriptions := b.subscriptions ++ [s] }

def remove (s : Subscription E H) (b : Bus E H) : Bus E H :=
  { b with subscriptions := b.subscriptions.filter (· ≠ s) }

/-- The answer is the subscription, for whoever made it to cancel. -/
def enter (s : Subscription E H) (b : Bus E H) : Except Raised (Subscription E H) × Bus E H :=
  match inherited? s.topic with
  | none => (.ok s, b.add s)
  | some _ => (.error (noSet "add"), b)

def cancel (s : Subscription E H) (b : Bus E H) : Except Raised Unit × Bus E H :=
  match inherited? s.topic with
  | none => (.ok (), b.remove s)
  | some _ => (.error (noSet "delete"), b)

def subscribe (e : E) (h : H) (b : Bus E H) : Except Raised (Subscription E H) × Bus E H :=
  b.enter ⟨e, .lasting h⟩

/-- Subscribes for one call. The number is used up, whether there is a subscription or not. -/
def subscribeOnce (e : E) (h : H) (b : Bus E H) : Except Raised (Subscription E H) × Bus E H :=
  { b with serial := b.serial + 1 }.enter ⟨e, .single b.serial h⟩

/-- Takes back what `subscribe` did. -/
def unsubscribe (e : E) (h : H) (b : Bus E H) : Except Raised Unit × Bus E H :=
  b.cancel ⟨e, .lasting h⟩

def dropTopic (e : E) (b : Bus E H) : Bus E H :=
  { b with subscriptions := b.subscriptions.filter (·.topic ≠ e) }

def clear (b : Bus E H) : Bus E H := { b with subscriptions := [] }

/-- An event on its way to one subscriber. -/
structure Delivery (E H P : Type) where
  topic : E
  subscriber : Subscriber H
  payload : P
  deriving Repr

/-- What was taken for a subscriber of `topic` failed with this error. -/
structure Failure (E : Type) where
  topic : E
  error : Raised
  deriving DecidableEq, Repr

def Failure.text (topic : String) : String := "Handler error for event '" ++ topic ++ "':"

/-- An event being published: each delivery waits for the handler's end and for its failure, if it
has one. -/
abbrev Publishing (E H P : Type) :=
  Step (Option Raised) (Bus E H) (Delivery E H P) (Failure E) (Except Raised Unit)

/-- A subscription for one call has had it. -/
def spend (e : E) (x : Subscriber H) (b : Bus E H) : Bus E H :=
  match x with
  | .lasting _ => b
  | .single _ _ => b.remove ⟨e, x⟩

/-- Delivers to the subscribers one after the other. -/
def deliver (e : E) (p : P) : List (Subscriber H) → Bus E H → Publishing E H P
  | [], b => .done b (.ok ())
  | x :: xs, b =>
    .announce (b.spend e x) ⟨e, x, p⟩ fun
      | none, b => deliver e p xs b
      | some x, b => .say b ⟨e, x⟩ (deliver e p xs b)

/-- Calls `n` entries that are no handlers. -/
def deliverNone (e : E) : Nat → Bus E H → Publishing E H P
  | 0, b => .done b (.ok ())
  | n + 1, b => .say b ⟨e, noHandler⟩ (deliverNone e n b)

def publish (e : E) (p : P) (b : Bus E H) : Publishing E H P :=
  match inherited? e with
  | none => deliver e p (b.subscribers e) b
  | some n => deliverNone e n b

/-- What may be asked of a bus. -/
inductive Call (E H P : Type) where
  | subscribe (topic : E) (handler : H)
  | subscribeOnce (topic : E) (handler : H)
  | unsubscribe (topic : E) (handler : H)
  | cancel (s : Subscription E H)
  | dropTopic (topic : E)
  | clear
  | publish (topic : E) (payload : P)
  deriving Repr

/-- The surroundings of a bus are how the last handler ended. -/
abbrev Op (E H P : Type) := Action (Option Raised) (Bus E H) (Delivery E H P) (Failure E)

/-- The answer says how the call ended. -/
def Call.run : Call E H P → Op E H P (Except Raised Unit)
  | subscribe e h => modifyGet fun b => let (s, b) := b.subscribe e h; (discard s, b)
  | subscribeOnce e h => modifyGet fun b => let (s, b) := b.subscribeOnce e h; (discard s, b)
  | unsubscribe e h => modifyGet fun b => b.unsubscribe e h
  | cancel s => modifyGet fun b => b.cancel s
  | dropTopic e => modifyGet fun b => (.ok (), b.dropTopic e)
  | clear => modifyGet fun b => (.ok (), b.clear)
  | publish e p => ⟨fun _ b => b.publish e p⟩

end Bus

end HandheldUI
