import Mathlib.Data.List.Induction
import HandheldUI.Proofs.Bus.Publication

/-! Handlers that have been unsubscribed. To unsubscribe takes back a lasting subscription and no
other. What a handler has been subscribed to for one call stays, so that a publication still reaches
it once for each of these subscriptions. -/

namespace HandheldUI.Bus

open HandheldUI.Log (Raised)
open Topical (inherited?)

variable {E H P : Type}

/-- The call subscribes the handler to the topic, in either way. -/
def Call.Registers (e : E) (x : H) : Call E H P → Prop
  | subscribe t h | subscribeOnce t h => t = e ∧ h = x
  | _ => False

section Histories

variable [Topical E] {before after : List (Bus E H × (Call E H P ⊕ Delivery E H P))}
  {s : Subscription E H} {y : Bus E H × (Call E H P ⊕ Delivery E H P)}

theorem Enters.registers (h : Enters s y) :
    ∃ c, y.2 = .inl c ∧ c.Registers s.topic s.subscriber.handler := by
  obtain ⟨b, c | d⟩ := y
  · refine ⟨c, rfl, ?_⟩
    cases c with
    | subscribe t x | subscribeOnce t x =>
      obtain ⟨-, rfl⟩ := h
      exact ⟨rfl, rfl⟩
    | _ => exact h.elim
  · exact h.elim

/-- While nothing subscribes `s`, it is only left to see what removes it. -/
theorem registered_append_iff (h : ∀ y ∈ after, ¬Enters s y) :
    Registered (before ++ after) s ↔ Registered before s ∧ ∀ y ∈ after, ¬Removes s y := by
  induction after using List.reverseRecOn with
  | nil => simp
  | append_singleton after y ih =>
    have hy : ¬Enters s y := h y (by simp)
    have ih := ih fun z hz => h z (List.mem_append_left _ hz)
    rw [Registered] at ih
    rw [Registered, ← List.append_assoc, History.since_concat, ih]
    simp [hy, or_imp, forall_and, and_assoc]

/-- The handler was subscribed for one call, under this number, and still is. -/
def Waits (before after : List (Bus E H × (Call E H P ⊕ Delivery E H P))) (e : E) (x : H)
    (n : Nat) : Prop :=
  Registered before ⟨e, .single n x⟩ ∧ ∀ y ∈ after, ¬Removes ⟨e, .single n x⟩ y

variable {e : E} {x : H} {u : Bus E H}

/-- Of the subscriptions of a handler that has been unsubscribed only those for one call are left. -/
theorem registered_iff_waits (h : ∀ y ∈ after, ∀ c, y.2 = .inl c → ¬c.Registers e x)
    {z : Subscriber H} (hz : z.handler = x) :
    Registered (before ++ (u, .inl (.unsubscribe e x)) :: after) ⟨e, z⟩ ↔
      ∃ n, z = .single n x ∧ Waits before after e x n := by
  have henters : ∀ y ∈ (u, .inl (.unsubscribe e x)) :: after, ¬Enters ⟨e, z⟩ y := by
    refine List.forall_mem_cons.2 ⟨id, fun y hy hs => ?_⟩
    obtain ⟨c, hc, hreg⟩ := hs.registers
    exact h y hy c hc (hz ▸ hreg)
  rw [registered_append_iff henters, List.forall_mem_cons]
  cases z with
  | lasting k =>
    obtain rfl : k = x := hz
    simp [Removes]
  | single n k =>
    obtain rfl : k = x := hz
    simp [Removes, Waits]

end Histories

section Reached

variable {xs : List (Subscriber H)} {ends : List (Option Raised × Bus E H)}

theorem ownEvents_reports (e : E) (p : P) (h : ends.length = xs.length) :
    ownEvents (reports e p (xs.zip ends)) = xs.map fun y => ⟨e, y, p⟩ := by
  induction xs generalizing ends with
  | nil => rfl
  | cons x xs ih =>
    obtain ⟨⟨failure, b⟩, ends, rfl⟩ := List.exists_cons_of_length_eq_add_one h
    have ih := ih (Nat.succ_inj.1 h)
    cases failure with
    | none => exact congrArg (_ :: ·) ih
    | some message => exact congrArg (_ :: ·) ih

variable [DecidableEq H]

/-- The number under which the handler is subscribed for one call. -/
def numberOf? (x : H) : Subscriber H → Option Nat
  | .single n h => if h = x then some n else none
  | .lasting _ => none

theorem numberOf?_eq_some {x : H} {y : Subscriber H} {n : Nat} :
    numberOf? x y = some n ↔ y = .single n x := by
  cases y with
  | lasting h => simp [numberOf?]
  | single k h => simp [numberOf?, and_comm]

theorem mem_numbers {x : H} {n : Nat} :
    n ∈ xs.filterMap (numberOf? x) ↔ .single n x ∈ xs := by
  simp [numberOf?_eq_some]

theorem nodup_numbers {x : H} (h : xs.Nodup) : (xs.filterMap (numberOf? x)).Nodup := by
  refine h.filterMap fun y z n hy hz => ?_
  rw [numberOf?_eq_some.1 hy, numberOf?_eq_some.1 hz]

/-- Without a lasting subscription of the handler its numbers say all of it. -/
theorem filter_handler {x : H} (h : .lasting x ∉ xs) :
    xs.filter (·.handler = x) = (xs.filterMap (numberOf? x)).map (.single · x) := by
  rw [List.map_filterMap, ← List.filterMap_eq_filter]
  refine List.filterMap_congr fun y hy => ?_
  cases y with
  | lasting k =>
    have hk : k ≠ x := fun hk => h (hk ▸ hy)
    simp [numberOf?, Subscriber.handler, hk]
  | single n k =>
    by_cases hk : k = x
    · subst hk
      simp [numberOf?, Subscriber.handler]
    · simp [numberOf?, Subscriber.handler, hk]

end Reached

variable [DecidableEq E] [DecidableEq H] [Topical E]

/-- A publication reaches all that are subscribed, in their order. -/
theorem ownEvents_publish {b t : Bus E H} {e : E} {p : P} {r : Option Raised}
    {own : List ((Delivery E H P × Option Raised × Bus E H) ⊕ Failure E)} {a : Except Raised Unit}
    (hb : ∀ s ∈ b.subscriptions, inherited? s.topic = none)
    (hown : Step.Does ((Call.publish e p).run.run r b) own t a) :
    ownEvents own = (b.subscribers e).map fun y => ⟨e, y, p⟩ := by
  change Step.Does (b.publish e p) own t a at hown
  cases he : inherited? e with
  | none =>
    rw [publish_of_own he] at hown
    obtain ⟨-, ends, hlen, rfl, -⟩ := (does_deliver e p).1 hown
    exact ownEvents_reports e p hlen
  | some n =>
    rw [publish_of_inherited he] at hown
    obtain ⟨-, rfl, -⟩ := (does_deliverNone e).1 hown
    rw [subscribers_of_inherited hb he]
    simp [ownEvents]

/-- A handler is unsubscribed from a topic and not subscribed to it again. At every later moment of a
run, nested publications included, the handler is subscribed only for one call, under the numbers
that it was given before and that nothing has removed since; and a publication of the topic that
begins then reaches the handler once for each of these numbers and not otherwise, whatever the
subscribers do. So it is not reached just if there is no such number. -/
theorem reached_after_unsubscribe
    {before after : List (Bus E H × (Call E H P ⊕ Delivery E H P))} {b u : Bus E H} {e : E} {x : H}
    (m : Moment Call.run {} (before ++ (u, .inl (.unsubscribe e x)) :: after) b)
    (hafter : ∀ y ∈ after, ∀ c, y.2 = .inl c → ¬c.Registers e x) :
    ∃ numbers : List Nat, numbers.Nodup ∧ (∀ n, n ∈ numbers ↔ Waits before after e x n) ∧
      ∀ (p : P) r own t a, Step.Does ((Call.publish e p).run.run r b) own t a →
        (ownEvents own).filter (·.subscriber.handler = x) =
          numbers.map fun n => ⟨e, .single n x, p⟩ := by
  have hk : Kept _ b.subscriptions := m.holds kept_nil fun c h r b hk => records_run c r hk
  have hmem (z : Subscriber H) (hz : z.handler = x) :
      z ∈ b.subscribers e ↔ ∃ n, z = .single n x ∧ Waits before after e x n := by
    rw [mem_subscribers, hk.mem, registered_iff_waits hafter hz]
  have hlasting : .lasting x ∉ b.subscribers e := fun h => by
    obtain ⟨n, hn, -⟩ := (hmem _ rfl).1 h
    cases hn
  have hnodup : (b.subscribers e).Nodup := nodup_subscribers (hk.order.imp Earlier.ne) e
  refine ⟨(b.subscribers e).filterMap (numberOf? x), nodup_numbers hnodup, fun n => ?_, ?_⟩
  · rw [mem_numbers, hmem _ rfl]
    simp
  · intro p r own t a hown
    rw [ownEvents_publish hk.own hown, List.filter_map]
    have h := congrArg (List.map fun y => (⟨e, y, p⟩ : Delivery E H P))
      (filter_handler hlasting)
    rwa [List.map_map] at h

/-- A handler is subscribed for good and twice for one call; the first of these two is cancelled, and
the handler is unsubscribed. -/
def halfGone : List (Option Raised × Call Unit Bool Nat) :=
  [.subscribe () true, .subscribeOnce () true, .subscribeOnce () true,
    .cancel ⟨(), .single 0 true⟩, .unsubscribe () true, .subscribe () false].map (none, ·)

def left : Bus Unit Bool :=
  { subscriptions := [⟨(), .single 1 true⟩, ⟨(), .lasting false⟩], serial := 2 }

theorem reached_after_unsubscribe_halfGone :
    Moment Call.run {} (Action.quietDiary Call.run halfGone {}) left ∧
    ∀ (p : Nat) r own t a, Step.Does ((Call.publish () p).run.run r left) own t a →
      (ownEvents own).filter (·.subscriber.handler = true) = [⟨(), .single 1 true, p⟩] := by
  have m : Moment Call.run {} (Action.quietDiary Call.run halfGone {}) left :=
    (diary_quietDiary Call.run halfGone {}).moment
  have mparts : Moment Call.run {} ((Action.quietDiary Call.run halfGone {}).take 4 ++
      (_, .inl (.unsubscribe () true)) :: (Action.quietDiary Call.run halfGone {}).drop 5) left := m
  have hafter : ∀ y ∈ (Action.quietDiary Call.run halfGone {}).drop 5, ∀ c, y.2 = .inl c →
      ¬c.Registers () true := by
    refine List.forall_mem_singleton.2 fun c hc => ?_
    obtain rfl := Sum.inl.inj hc
    exact fun h => Bool.false_ne_true h.2
  obtain ⟨numbers, -, -, hreached⟩ := reached_after_unsubscribe mparts hafter
  -- one course of a publication tells which numbers there are
  have hone : numbers = [1] := by
    have h := hreached 0 none _ left _ ((does_deliver () 0).2
      ⟨rfl, [(none, left), (none, left)], rfl, rfl, rfl⟩)
    have h : [(⟨(), .single 1 true, 0⟩ : Delivery Unit Bool Nat)] = _ := h
    obtain ⟨n, rest, rfl, hn, hrest⟩ := List.map_eq_cons_iff.1 h.symm
    obtain rfl := List.map_eq_nil_iff.1 hrest
    have hn : Subscriber.single n true = .single 1 true := congrArg Delivery.subscriber hn
    rw [(Subscriber.single.inj hn).1]
  rw [hone] at hreached
  exact ⟨m, hreached⟩

/-- A handler is subscribed for one call and unsubscribed. -/
def abandoned : List (Option Raised × Call Unit Bool Nat) :=
  [.subscribeOnce () true, .unsubscribe () true].map (none, ·)

def waiting : Bus Unit Bool := { subscriptions := [⟨(), .single 0 true⟩], serial := 1 }

/-- Subscribed for one call and then unsubscribed, a handler is reached all the same. -/
theorem not_silent_after_unsubscribe :
    ¬∀ (before after : List (Bus Unit Bool × (Call Unit Bool Nat ⊕ Delivery Unit Bool Nat)))
      (b u : Bus Unit Bool) (x : Bool),
      Moment Call.run {} (before ++ (u, .inl (.unsubscribe () x)) :: after) b →
      (∀ y ∈ after, ∀ c, y.2 = .inl c → ¬c.Registers () x) →
      ∀ (p : Nat) r own t a, Step.Does ((Call.publish () p).run.run r b) own t a →
        ∀ d ∈ ownEvents own, d.subscriber.handler ≠ x := by
  intro h
  have m : Moment Call.run {} [({}, .inl (.subscribeOnce () true)),
      (waiting, .inl (.unsubscribe () true))] waiting :=
    (diary_quietDiary Call.run abandoned {}).moment
  refine h [({}, .inl (.subscribeOnce () true))] [] waiting waiting true m nofun 1 none _ waiting _
    ((does_deliver () 1).2 ⟨rfl, [(none, waiting)], rfl, rfl, rfl⟩) ⟨(), .single 0 true, 1⟩ ?_ rfl
  exact List.mem_cons_self

end HandheldUI.Bus
