import Mathlib.Data.List.Nodup
import HandheldUI.Bus
import HandheldUI.Proofs.Action.Diary

/-! Subscriptions for one call. A publication reaches those subscribed when it began, so a
subscription for one call is reached by each publication that began while it was there: it goes away
with the first delivery, but another publication may have begun by then. -/

namespace HandheldUI.Bus

open HandheldUI.Action
open HandheldUI.Log (Raised)
open Topical (inherited?)

variable {E H P : Type}

section Table

variable [DecidableEq E] {b : Bus E H}

theorem mem_subscribers {e : E} {x : Subscriber H} :
    x ∈ b.subscribers e ↔ ⟨e, x⟩ ∈ b.subscriptions := by
  rw [subscribers, List.mem_map]
  constructor
  · rintro ⟨s, hs, rfl⟩
    rw [List.mem_filter] at hs
    obtain rfl : s.topic = e := of_decide_eq_true hs.2
    exact hs.1
  · intro hm
    exact ⟨⟨e, x⟩, List.mem_filter.2 ⟨hm, by simp⟩, rfl⟩

theorem nodup_subscribers (hb : b.subscriptions.Nodup) (e : E) :
    (b.subscribers e).Nodup := by
  refine List.Nodup.map_on ?_ (hb.filter _)
  rintro ⟨e₁, x⟩ h₁ ⟨e₂, y⟩ h₂ (rfl : x = y)
  have he₁ : e₁ = e := of_decide_eq_true (List.mem_filter.1 h₁).2
  have he₂ : e₂ = e := of_decide_eq_true (List.mem_filter.1 h₂).2
  rw [he₁, he₂]

variable [DecidableEq H]

theorem mem_add {s t : Subscription E H} :
    t ∈ (b.add s).subscriptions ↔ t ∈ b.subscriptions ∨ t = s := by
  unfold add
  by_cases hs : s ∈ b.subscriptions
  · rw [if_pos hs]
    exact ⟨.inl, fun h => h.elim id fun ht => ht ▸ hs⟩
  · simp [hs]

theorem nodup_add (s : Subscription E H) (h : b.subscriptions.Nodup) :
    (b.add s).subscriptions.Nodup := by
  unfold add
  by_cases hs : s ∈ b.subscriptions
  · rwa [if_pos hs]
  · rw [if_neg hs, List.nodup_append]
    refine ⟨h, by simp, fun t ht u hu => ?_⟩
    obtain rfl : u = s := by simpa using hu
    exact fun htu => hs (htu ▸ ht)

theorem serial_add (s : Subscription E H) : (b.add s).serial = b.serial := by
  unfold add
  split <;> rfl

end Table

variable [Topical E]

/-- No subscription is there twice or under an inherited name, and the numbers of those for one call
have been given out. -/
structure Sound (b : Bus E H) : Prop where
  nodup : b.subscriptions.Nodup
  own : ∀ s ∈ b.subscriptions, inherited? s.topic = none
  lt_serial : ∀ e n h, ⟨e, .single n h⟩ ∈ b.subscriptions → n < b.serial

/-- A bus later on: no number is given out twice, and no subscription for one call comes back. -/
structure Ages (b c : Bus E H) : Prop where
  sound : b.Sound → c.Sound
  serial : b.serial ≤ c.serial
  old : ∀ e n h, n < b.serial → ⟨e, .single n h⟩ ∈ c.subscriptions →
    ⟨e, .single n h⟩ ∈ b.subscriptions

theorem sound_empty : ({} : Bus E H).Sound := ⟨List.nodup_nil, nofun, nofun⟩

instance : IsPreorder (Bus E H) Ages where
  refl _ := ⟨id, Nat.le_refl _, fun _ _ _ _ h => h⟩
  trans _ _ _ hab hbc := by
    refine ⟨fun h => hbc.sound (hab.sound h), Nat.le_trans hab.serial hbc.serial, ?_⟩
    intro e n h hn hc
    exact hab.old e n h hn (hbc.old e n h (Nat.lt_of_lt_of_le hn hab.serial) hc)

/-- Who is reached for one call has a number, and is not subscribed any longer. -/
def Spent (b : Bus E H) (d : Delivery E H P) : Prop :=
  ∀ n h, d.subscriber = .single n h →
    n < b.serial ∧ (⟨d.topic, d.subscriber⟩ : Subscription E H) ∉ b.subscriptions

section Ages

variable {b : Bus E H} {l : List (Subscription E H)}

theorem ages_of_sublist (h : l.Sublist b.subscriptions) : Ages b { b with subscriptions := l } where
  sound hb := ⟨hb.nodup.sublist h, fun s hs => hb.own s (h.subset hs),
    fun e n x hx => hb.lt_serial e n x (h.subset hx)⟩
  serial := Nat.le_refl _
  old _ _ _ _ hx := h.subset hx

variable [DecidableEq E] [DecidableEq H]

theorem ages_remove (s : Subscription E H) : Ages b (b.remove s) :=
  ages_of_sublist List.filter_sublist

theorem cancel_of_own {s : Subscription E H} (hs : inherited? s.topic = none) :
    b.cancel s = (.ok (), b.remove s) := by simp [cancel, hs]

theorem cancel_of_inherited {s : Subscription E H} {k : Nat} (hs : inherited? s.topic = some k) :
    b.cancel s = (.error (noSet "delete"), b) := by simp [cancel, hs]

theorem enter_of_own {s : Subscription E H} (hs : inherited? s.topic = none) :
    b.enter s = (.ok s, b.add s) := by simp [enter, hs]

theorem enter_of_inherited {s : Subscription E H} {k : Nat} (hs : inherited? s.topic = some k) :
    b.enter s = (.error (noSet "add"), b) := by simp [enter, hs]

theorem ages_cancel (s : Subscription E H) : Ages b (b.cancel s).2 := by
  cases hs : inherited? s.topic with
  | none =>
    rw [cancel_of_own hs]
    exact ages_remove s
  | some k =>
    rw [cancel_of_inherited hs]
    exact refl b

/-- The new subscription has a number that no other one has had, if it has a number. -/
theorem ages_enter {s : Subscription E H} {m : Nat} (hle : b.serial ≤ m)
    (hn : ∀ n h, s.subscriber = .single n h → b.serial ≤ n ∧ n < m) :
    Ages b ({ b with serial := m }.enter s).2 := by
  cases hs : inherited? s.topic with
  | none =>
    rw [enter_of_own hs]
    refine ⟨fun hb => ⟨nodup_add _ hb.nodup, fun t ht => ?_, fun e n h ht => ?_⟩, ?_,
      fun e n h hlt ht => ?_⟩
    · rcases mem_add.1 ht with ht | rfl
      · exact hb.own t ht
      · exact hs
    · rw [serial_add]
      rcases mem_add.1 ht with ht | rfl
      · exact Nat.lt_of_lt_of_le (hb.lt_serial e n h ht) hle
      · exact (hn n h rfl).2
    · rw [serial_add]
      exact hle
    · rcases mem_add.1 ht with ht | rfl
      · exact ht
      · exact absurd hlt (Nat.not_lt.2 (hn n h rfl).1)
  | some k =>
    rw [enter_of_inherited hs]
    refine ⟨fun hb => ⟨hb.nodup, hb.own, fun e n h ht => ?_⟩, hle, fun _ _ _ _ => id⟩
    exact Nat.lt_of_lt_of_le (hb.lt_serial e n h ht) hle

theorem ages_subscribe (e : E) (h : H) : Ages b (b.subscribe e h).2 :=
  ages_enter (m := b.serial) (Nat.le_refl _) nofun

theorem ages_subscribeOnce (e : E) (h : H) : Ages b (b.subscribeOnce e h).2 := by
  refine ages_enter (Nat.le_succ _) fun n h' hs => ?_
  obtain ⟨rfl, -⟩ := Subscriber.single.inj hs
  exact ⟨Nat.le_refl _, Nat.lt_succ_self _⟩

theorem serial_subscribeOnce (e : E) (h : H) : (b.subscribeOnce e h).2.serial = b.serial + 1 := by
  unfold subscribeOnce
  cases hs : inherited? e with
  | none => rw [enter_of_own hs, serial_add]
  | some k => rw [enter_of_inherited hs]

theorem ages_spend (e : E) (x : Subscriber H) : Ages b (b.spend e x) := by
  cases x with
  | lasting h => exact refl b
  | single n h => exact ages_remove _

end Ages

variable [DecidableEq E] [DecidableEq H]

omit [Topical E] in
theorem spent_spend (e : E) (x : Subscriber H) (p : P) {b : Bus E H}
    (hx : ∀ n h, x = .single n h → n < b.serial) : (b.spend e x).Spent ⟨e, x, p⟩ := by
  rintro n h rfl
  exact ⟨hx n h rfl, by simp [spend, remove]⟩

theorem along_deliver (e : E) (p : P) {xs : List (Subscriber H)} {b : Bus E H}
    (hxs : ∀ n h, .single n h ∈ xs → n < b.serial) :
    (deliver e p xs b).Along Ages Spent (Ages b) := by
  induction xs generalizing b with
  | nil => exact refl b
  | cons x xs ih =>
    have hx := ages_spend (b := b) e x
    refine ⟨hx, spent_spend e x p fun n h hn => hxs n h (by simp [hn]), ?_⟩
    intro failure u hu
    have hu' : (deliver e p xs u).Along Ages Spent (Ages u) := by
      refine ih fun n h hn => ?_
      have hlt := hxs n h (List.mem_cons_of_mem _ hn)
      have hle := Nat.le_trans hx.serial hu.serial
      omega
    cases failure with
    | none => exact hu'
    | some message => exact hu'

omit [DecidableEq E] [DecidableEq H] in
theorem along_deliverNone (e : E) (n : Nat) (b : Bus E H) :
    (deliverNone e n b : Publishing E H P).Along Ages Spent (Ages b) := by
  induction n with
  | zero => exact refl b
  | succ n ih => exact ih

theorem publish_of_own {e : E} (he : inherited? e = none) (p : P) (b : Bus E H) :
    b.publish e p = deliver e p (b.subscribers e) b := by simp [publish, he]

theorem publish_of_inherited {e : E} {k : Nat} (he : inherited? e = some k) (p : P) (b : Bus E H) :
    b.publish e p = deliverNone e k b := by simp [publish, he]

omit [DecidableEq H] in
theorem subscribers_of_inherited {b : Bus E H}
    (hb : ∀ s ∈ b.subscriptions, inherited? s.topic = none) {e : E} {k : Nat}
    (he : inherited? e = some k) : b.subscribers e = [] := by
  refine List.eq_nil_iff_forall_not_mem.2 fun x hx => ?_
  have hown : inherited? e = none := hb ⟨e, x⟩ (mem_subscribers.1 hx)
  rw [he] at hown
  cases hown

/-- What is true of a bus after a call: it is older, and a number that was given out is used up. -/
def After (b : Bus E H) (c : Call E H P) (t : Bus E H) : Prop :=
  Ages b t ∧ ∀ e h, c = .subscribeOnce e h → b.serial < t.serial

theorem along_run (c : Call E H P) (r : Option Raised) {b : Bus E H} (hb : b.Sound) :
    (c.run.run r b).Along Ages Spent (After b c) := by
  cases c with
  | subscribe e h => exact ⟨ages_subscribe e h, nofun⟩
  | subscribeOnce e h =>
    refine ⟨ages_subscribeOnce e h, fun _ _ _ => ?_⟩
    exact Nat.lt_of_lt_of_eq (Nat.lt_succ_self _) (serial_subscribeOnce e h).symm
  | unsubscribe e h => exact ⟨ages_cancel _, nofun⟩
  | cancel s => exact ⟨ages_cancel s, nofun⟩
  | dropTopic e => exact ⟨ages_of_sublist List.filter_sublist, nofun⟩
  | clear => exact ⟨ages_of_sublist (List.nil_sublist _), nofun⟩
  | publish e p =>
    have h : (b.publish e p).Along Ages Spent (Ages b) := by
      cases he : inherited? e with
      | none =>
        rw [publish_of_own he]
        exact along_deliver e p fun n h hn => hb.lt_serial e n h (mem_subscribers.1 hn)
      | some k =>
        rw [publish_of_inherited he]
        exact along_deliverNone e k b
    exact h.mono fun t ht => ⟨ht, nofun⟩

/-- A delivery to what is subscribed. -/
def Delivery.isTo (s : Subscription E H) (d : Delivery E H P) : Bool :=
  d.topic = s.topic && d.subscriber = s.subscriber

/-- A publication that begins while `s` is subscribed to its topic. -/
def Call.reaches (s : Subscription E H) (b : Bus E H) : Call E H P → Bool
  | publish e _ => e = s.topic && b.subscriptions.contains s
  | _ => false

omit [Topical E] in
theorem owes_deliver (s : Subscription E H) (e : E) (p : P) (xs : List (Subscriber H))
    (b : Bus E H) : (deliver e p xs b).Owes (Delivery.isTo s)
      (if e = s.topic then xs.count s.subscriber else 0) := by
  induction xs generalizing b with
  | nil => simp [deliver, Step.Owes]
  | cons x xs ih =>
    refine ⟨if e = s.topic then xs.count s.subscriber else 0, ?_, fun failure u => ?_⟩
    · by_cases he : e = s.topic
      · by_cases hx : x = s.subscriber <;> simp [Delivery.isTo, he, hx]
      · simp [Delivery.isTo, he]
    · cases failure with
      | none => exact ih u
      | some message => exact ih u

omit [Topical E] in
theorem owes_deliverNone (s : Subscription E H) (e : E) (n : Nat) (b : Bus E H) :
    (deliverNone e n b : Publishing E H P).Owes (Delivery.isTo s) 0 := by
  induction n with
  | zero => rfl
  | succ n ih => exact ih

theorem owes_publish (s : Subscription E H) (e : E) (p : P) {b : Bus E H} (hb : b.Sound) :
    (b.publish e p).Owes (Delivery.isTo s)
      (if e = s.topic then (b.subscribers e).count s.subscriber else 0) := by
  cases he : inherited? e with
  | none =>
    rw [publish_of_own he]
    exact owes_deliver s e p _ b
  | some k =>
    rw [publish_of_inherited he, subscribers_of_inherited hb.own he, List.count_nil, ite_self]
    exact owes_deliverNone s e k b

theorem owes_run (s : Subscription E H) (c : Call E H P) (r : Option Raised) {b : Bus E H}
    (hb : b.Sound) : (c.run.run r b).Owes (Delivery.isTo s) (c.reaches s b).toNat := by
  cases c with
  | publish e p =>
    have hn : (Call.reaches s b (.publish e p : Call E H P)).toNat =
        if e = s.topic then (b.subscribers e).count s.subscriber else 0 := by
      by_cases he : e = s.topic
      · subst he
        rw [if_pos rfl, List.Nodup.count (nodup_subscribers hb.nodup _)]
        by_cases hm : s ∈ b.subscriptions <;> simp [Call.reaches, mem_subscribers, hm]
      · simp [Call.reaches, he]
    rw [hn]
    exact owes_publish s e p hb
  | _ => rfl

section Diaries

variable {d : List (Bus E H × (Call E H P ⊕ Delivery E H P))} {b : Bus E H}

theorem unfolds (run : Diary Call.run {} d b) : Unfolds Ages Spent After (Ages {}) d b := by
  refine run.unfolds (I := Sound) ?_ ?_ ?_ (fun c r b hb => along_run c r hb) sound_empty
  · intro b c hb hc
    exact hc.sound hb
  · intro b c t _ h
    exact h.1
  · rintro b c t u ⟨ht, hc⟩ hu
    refine ⟨IsTrans.trans b t u ht hu, fun e h he => ?_⟩
    exact Nat.lt_of_lt_of_le (hc e h he) hu.serial

/-- The call subscribes for one call, and the number `n` is given out. -/
def Call.numbers (n : Nat) (b : Bus E H) : Call E H P → Bool
  | subscribeOnce _ _ => b.serial = n
  | _ => false

omit [DecidableEq E] [DecidableEq H] [Topical E] in
theorem Call.numbers_iff {n : Nat} {b : Bus E H} {c : Call E H P} :
    c.numbers n b ↔ b.serial = n ∧ ∃ e h, c = .subscribeOnce e h := by
  cases c <;> simp [numbers]

omit [Topical E] in
theorem Call.mem_of_reaches {s : Subscription E H} {b : Bus E H} {c : Call E H P}
    (h : c.reaches s b) : s ∈ b.subscriptions := by
  cases c with
  | publish e p =>
    rw [reaches, Bool.and_eq_true] at h
    exact List.contains_iff_mem.1 h.2
  | _ => simp [reaches] at h

omit [DecidableEq E] [DecidableEq H] in
/-- A number that is given out is below all that are given out later. -/
theorem not_numbers_twice {y z : Bus E H × (Call E H P ⊕ Delivery E H P)} {n : Nat}
    (hyz : Follows Ages After y z.1) :
    ¬(isCall (Call.numbers n) y ∧ isCall (Call.numbers n) z) := by
  intro h
  obtain ⟨c, hc, hy⟩ := isCall_iff.1 h.1
  obtain ⟨c', -, hz⟩ := isCall_iff.1 h.2
  obtain ⟨hny, e, x, hex⟩ := Call.numbers_iff.1 hy
  have hnz : z.1.serial = n := (Call.numbers_iff.1 hz).1
  have hlt : y.1.serial < z.1.serial := (hyz.of_call hc).2 e x hex
  omega

/-- Who was reached for one call is not subscribed in any bus that is older. -/
theorem not_reaches_of_spent {y z : Bus E H × (Call E H P ⊕ Delivery E H P)} {e : E} {n : Nat}
    {h : H} (hyz : Follows Ages After y z.1) (hs : ∀ d, y.2 = .inr d → Spent y.1 d) :
    ¬(isEvent (Delivery.isTo ⟨e, .single n h⟩) y ∧
      isCall (Call.reaches ⟨e, .single n h⟩) z) := by
  intro hh
  obtain ⟨d, hd, hy⟩ := isEvent_iff.1 hh.1
  obtain ⟨c, -, hz⟩ := isCall_iff.1 hh.2
  obtain ⟨ht, hx⟩ : d.topic = e ∧ d.subscriber = .single n h := by
    simpa [Delivery.isTo] using hy
  obtain ⟨hn, hnot⟩ := hs d hd n h hx
  rw [ht, hx] at hnot
  exact hnot ((hyz.of_event hd).old e n h hn (Call.mem_of_reaches hz))

/-- In every run of a bus, whatever the handlers do: each number of a subscription for one call is
given out once; the subscription is reached as often as its topic is published while it is there;
and it is not there any longer in any publication that begins after it was first reached. -/
theorem deliveries_of_single (run : Diary Call.run {} d b) (e : E) (n : Nat) (h : H) :
    let s : Subscription E H := ⟨e, .single n h⟩
    d.Pairwise (fun y z => ¬(isCall (Call.numbers n) y ∧ isCall (Call.numbers n) z)) ∧
    d.countP (isEvent (Delivery.isTo s)) = d.countP (isCall (Call.reaches s)) ∧
    d.Pairwise (fun y z => ¬(isEvent (Delivery.isTo s) y ∧ isCall (Call.reaches s) z)) := by
  intro s
  have hu := unfolds run
  have hs : ∀ y ∈ d, y.1.Sound := fun y hy => (hu.states y hy).sound sound_empty
  refine ⟨hu.ordered.imp not_numbers_twice, ?_, hu.ordered.imp_of_mem ?_⟩
  · exact run.countP_isEvent (fun c r b hb => owes_run s c r hb) hs
  · intro y z hy _ hyz
    exact not_reaches_of_spent hyz (hu.events y hy)

end Diaries

/-- A bus with one topic. -/
instance : Topical Unit where
  inherited? _ := none

/-- A handler, and another one for one call. -/
def two : Bus Unit Bool :=
  { subscriptions := [⟨(), .lasting true⟩, ⟨(), .single 0 false⟩], serial := 1 }

def one : Bus Unit Bool := { subscriptions := [⟨(), .lasting true⟩], serial := 1 }

/-- The first handler, when it is reached, publishes again before the second one's turn. -/
def nested : List (Bus Unit Bool × (Call Unit Bool Nat ⊕ Delivery Unit Bool Nat)) :=
  [({}, .inl (.subscribe () true)),
    ({ subscriptions := [⟨(), .lasting true⟩] }, .inl (.subscribeOnce () false)),
    (two, .inl (.publish () 1)), (two, .inr ⟨(), .lasting true, 1⟩),
    (two, .inl (.publish () 2)), (two, .inr ⟨(), .lasting true, 2⟩),
    (one, .inr ⟨(), .single 0 false, 2⟩), (one, .inr ⟨(), .single 0 false, 1⟩)]

theorem diary_nested : Diary Call.run {} nested one := by
  have last (p : Nat) (b : Bus Unit Bool) (hb : b.spend () (.single 0 false) = one) :
      Step.Writes Call.run (deliver () p [.single 0 false] b)
        [(one, .inr ⟨(), .single 0 false, p⟩)] one (.ok ()) := by
    rw [← hb]
    exact .announce (r := none) .nil .done
  have inner : Diary Call.run two _ one :=
    .cons (r := none) (c := .publish () 2) (.announce (r := none) .nil (last 2 two rfl)) .nil
  have run : Diary Call.run {} _ one :=
    .cons (r := none) (c := .subscribe () true) .done <|
      .cons (r := none) (c := .subscribeOnce () false) .done <|
        .cons (r := none) (c := .publish () 1)
          (.announce (r := none) inner (last 1 one rfl)) .nil
  exact run

/-- Both publications began while the second handler was subscribed. -/
theorem deliveries_of_single_nested :
    nested.countP (isEvent (Delivery.isTo ⟨(), .single 0 false⟩)) =
      nested.countP (isCall (Call.reaches ⟨(), .single 0 false⟩)) ∧
    nested.countP (isCall (Call.reaches ⟨(), .single 0 false⟩)) = 2 :=
  ⟨(deliveries_of_single diary_nested () 0 false).2.1, by decide⟩

theorem countP_isTo_nested : Diary Call.run {} nested one ∧
    nested.countP (isCall (Call.numbers 0)) = 1 ∧
    nested.countP (isEvent (Delivery.isTo ⟨(), .single 0 false⟩)) = 2 :=
  ⟨diary_nested, by decide, by decide⟩

end HandheldUI.Bus
