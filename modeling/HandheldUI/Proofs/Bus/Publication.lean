import HandheldUI.Proofs.Action.History
import HandheldUI.Proofs.Action.Moment
import HandheldUI.Proofs.Bus.Once

/-! Publications. Who is subscribed when a publication begins can be read off what has happened to
the bus so far; the publication reaches just those, in their order, whatever they do meanwhile.
Under an inherited name nobody can be subscribed, and a publication reports failures of nobody's. -/

namespace HandheldUI.Bus

open HandheldUI.Log (Raised)
open Topical (inherited?)

variable {E H P : Type}

section Histories

variable [Topical E]

/-- The entry subscribes `s`, if it is not subscribed already. -/
def Enters (s : Subscription E H) : Bus E H × (Call E H P ⊕ Delivery E H P) → Prop
  | (_, .inl (.subscribe e h)) => inherited? e = none ∧ s = ⟨e, .lasting h⟩
  | (b, .inl (.subscribeOnce e h)) => inherited? e = none ∧ s = ⟨e, .single b.serial h⟩
  | _ => False

theorem Enters.own {s : Subscription E H} {y : Bus E H × (Call E H P ⊕ Delivery E H P)}
    (h : Enters s y) : inherited? s.topic = none := by
  obtain ⟨b, c | d⟩ := y
  · cases c with
    | subscribe e x | subscribeOnce e x =>
      obtain ⟨he, rfl⟩ := h
      exact he
    | _ => exact h.elim
  · exact h.elim

/-- The entry removes `s`. A subscription for one call goes with its delivery. -/
def Removes (s : Subscription E H) : Bus E H × (Call E H P ⊕ Delivery E H P) → Prop
  | (_, .inl (.unsubscribe e h)) => s = ⟨e, .lasting h⟩
  | (_, .inl (.cancel t)) => s = t
  | (_, .inl (.dropTopic e)) => s.topic = e
  | (_, .inl .clear) => True
  | (_, .inr ⟨e, .single n h, _⟩) => s = ⟨e, .single n h⟩
  | _ => False

variable {h : List (Bus E H × (Call E H P ⊕ Delivery E H P))} {s t : Subscription E H}
  {y : Bus E H × (Call E H P ⊕ Delivery E H P)} {l : List (Subscription E H)}

/-- Somebody has subscribed `s`, and nobody has removed it since. -/
def Registered (h : List (Bus E H × (Call E H P ⊕ Delivery E H P))) (s : Subscription E H) : Prop :=
  History.Since (fun _ => Enters s) (fun _ y => ¬Removes s y) h

/-- Nobody can subscribe under an inherited name. -/
theorem Registered.own (hs : Registered h s) : inherited? s.topic = none := by
  obtain ⟨before, y, after, -, hy, -⟩ := hs
  exact hy.own

/-- At some time `t` was not subscribed and `s` was, which has not been removed since. -/
def Earlier (h : List (Bus E H × (Call E H P ⊕ Delivery E H P))) (s t : Subscription E H) : Prop :=
  ∃ before after, h = before ++ after ∧ Registered before s ∧ ¬Registered before t ∧
    ∀ y ∈ after, ¬Removes s y

theorem Earlier.concat (hst : Earlier h s t) (hs : ¬Removes s y) : Earlier (h ++ [y]) s t := by
  obtain ⟨before, after, rfl, hreg, hnot, hafter⟩ := hst
  refine ⟨before, after ++ [y], by simp, hreg, hnot, fun z hz => ?_⟩
  rcases List.mem_append.1 hz with hz | hz
  · exact hafter z hz
  · rwa [List.mem_singleton.1 hz]

theorem Earlier.ne (hst : Earlier h s t) : s ≠ t := by
  rintro rfl
  obtain ⟨before, after, -, hs, hnot, -⟩ := hst
  exact hnot hs

/-- The subscriptions are those that the history has left, in the order in which they came. -/
structure Kept (h : List (Bus E H × (Call E H P ⊕ Delivery E H P))) (l : List (Subscription E H)) :
    Prop where
  mem : ∀ s, s ∈ l ↔ Registered h s
  order : l.Pairwise (Earlier h)

theorem Kept.own (hk : Kept h l) : ∀ s ∈ l, inherited? s.topic = none :=
  fun s hs => ((hk.mem s).1 hs).own

theorem kept_nil : Kept ([] : List (Bus E H × (Call E H P ⊕ Delivery E H P))) [] where
  mem s := by simp [Registered, History.not_since_nil]
  order := .nil

/-- The entry removes what `keep` does not keep, and subscribes nothing. -/
theorem Kept.filter (hk : Kept h l) (keep : Subscription E H → Bool) (he : ∀ s, ¬Enters s y)
    (hr : ∀ s, Removes s y ↔ keep s = false) : Kept (h ++ [y]) (l.filter keep) where
  mem s := by
    rw [List.mem_filter, hk.mem s, Registered, Registered, History.since_concat, hr s]
    simp [he s]
  order := by
    refine (hk.order.filter keep).imp_of_mem fun hs _ hst => hst.concat ?_
    rw [hr, (List.mem_filter.1 hs).2]
    decide

theorem Kept.same (hk : Kept h l) (he : ∀ s, ¬Enters s y) (hr : ∀ s, ¬Removes s y) :
    Kept (h ++ [y]) l := by
  have hf : Kept (h ++ [y]) (l.filter fun _ => true) := hk.filter _ he fun s => by simp [hr s]
  rwa [List.filter_true] at hf

variable [DecidableEq E] [DecidableEq H]

/-- The entry subscribes `s` and removes nothing. -/
theorem Kept.add {b : Bus E H} (hk : Kept h b.subscriptions) (s : Subscription E H)
    (he : ∀ t, Enters t y ↔ t = s) (hr : ∀ t, ¬Removes t y) :
    Kept (h ++ [y]) (b.add s).subscriptions where
  mem t := by
    rw [mem_add, hk.mem t, Registered, Registered, History.since_concat, he t]
    simp [hr t, or_comm]
  order := by
    have hold : b.subscriptions.Pairwise (Earlier (h ++ [y])) :=
      hk.order.imp fun ht => ht.concat (hr _)
    by_cases hs : s ∈ b.subscriptions
    · simpa [Bus.add, hs] using hold
    · -- all others were there when `s` was not
      have hnew (t : Subscription E H) (ht : t ∈ b.subscriptions) : Earlier (h ++ [y]) t s := by
        refine ⟨h, [y], rfl, (hk.mem t).1 ht, fun hreg => hs ((hk.mem s).2 hreg), fun z hz => ?_⟩
        rw [List.mem_singleton.1 hz]
        exact hr t
      simpa [Bus.add, hs, List.pairwise_append] using ⟨hold, hnew⟩

end Histories

variable [DecidableEq E] [DecidableEq H]

section Records

variable [Topical E] {h : List (Bus E H × (Call E H P ⊕ Delivery E H P))} {b : Bus E H}

theorem kept_spend (e : E) (x : Subscriber H) (p : P) (hk : Kept h b.subscriptions) :
    Kept (h ++ [(b.spend e x, .inr ⟨e, x, p⟩)]) (b.spend e x).subscriptions := by
  cases x with
  | lasting h => exact hk.same (fun _ => id) fun _ => id
  | single n h => exact hk.filter _ (fun _ => id) fun s => by simp [Removes]

theorem records_deliver (e : E) (p : P) (xs : List (Subscriber H)) (hk : Kept h b.subscriptions) :
    (deliver e p xs b).Records (fun h b => Kept h b.subscriptions) h := by
  induction xs generalizing h b with
  | nil => exact hk
  | cons x xs ih =>
    -- the rest goes on from whatever bus the handler leaves, with the subscribers of before
    refine ⟨kept_spend e x p hk, fun h' failure u hu => ?_⟩
    cases failure with
    | none => exact ih hu
    | some message => exact ih hu

omit [DecidableEq E] [DecidableEq H] in
theorem records_deliverNone (e : E) (n : Nat) (hk : Kept h b.subscriptions) :
    (deliverNone e n b : Publishing E H P).Records (fun h b => Kept h b.subscriptions) h := by
  induction n with
  | zero => exact hk
  | succ n ih => exact ih

theorem kept_enter {y : Bus E H × (Call E H P ⊕ Delivery E H P)} {s : Subscription E H} {m : Nat}
    (hk : Kept h b.subscriptions) (he : ∀ t, Enters t y ↔ inherited? s.topic = none ∧ t = s)
    (hr : ∀ t, ¬Removes t y) :
    Kept (h ++ [y]) ({ b with serial := m }.enter s).2.subscriptions := by
  cases hs : inherited? s.topic with
  | none =>
    rw [enter_of_own hs]
    exact hk.add (b := { b with serial := m }) s (fun t => by simp [he t, hs]) hr
  | some k =>
    rw [enter_of_inherited hs]
    exact hk.same (fun t => by simp [he t, hs]) hr

theorem kept_cancel {y : Bus E H × (Call E H P ⊕ Delivery E H P)} {s : Subscription E H}
    (hk : Kept h b.subscriptions) (he : ∀ t, ¬Enters t y) (hr : ∀ t, Removes t y ↔ t = s) :
    Kept (h ++ [y]) (b.cancel s).2.subscriptions := by
  have hf : Kept (h ++ [y]) (b.remove s).subscriptions :=
    hk.filter _ he fun t => by simp [hr t]
  cases hs : inherited? s.topic with
  | none => rwa [cancel_of_own hs]
  | some k =>
    -- what nobody can have subscribed is not removed either
    have hnot : ∀ t ∈ b.subscriptions, t ≠ s := by
      rintro t ht rfl
      have hown := hk.own t ht
      rw [hs] at hown
      cases hown
    rw [cancel_of_inherited hs]
    rwa [remove, List.filter_eq_self.2 fun t ht => by simpa using hnot t ht] at hf

theorem records_run (c : Call E H P) (r : Option Raised) (hk : Kept h b.subscriptions) :
    (c.run.run r b).Records (fun h b => Kept h b.subscriptions) (h ++ [(b, .inl c)]) := by
  cases c with
  | subscribe e x => exact kept_enter (m := b.serial) hk (fun _ => Iff.rfl) fun _ => id
  | subscribeOnce e x => exact kept_enter hk (fun _ => Iff.rfl) fun _ => id
  | unsubscribe e x => exact kept_cancel hk (fun _ => id) fun _ => Iff.rfl
  | cancel t => exact kept_cancel hk (fun _ => id) fun _ => Iff.rfl
  | dropTopic e => exact hk.filter _ (fun _ => id) fun s => by simp [Removes]
  | clear =>
    have hf := hk.filter (y := (b, .inl .clear)) (fun _ => false) (fun _ => id) fun s => by
      simp [Removes]
    rwa [List.filter_false] at hf
  | publish e p =>
    have hb : Kept (h ++ [(b, .inl (.publish e p))]) b.subscriptions :=
      hk.same (fun _ => id) fun _ => id
    change (b.publish e p).Records _ _
    cases he : inherited? e with
    | none =>
      rw [publish_of_own he]
      exact records_deliver e p _ hb
    | some k =>
      rw [publish_of_inherited he]
      exact records_deliverNone e k hb

end Records

section Deliveries

variable (e : E) (p : P)

/-- What a publication does of its own, where its subscribers end as they do: each is reached, and
one that fails is reported. -/
def reports (e : E) (p : P) (ends : List (Subscriber H × Option Raised × Bus E H)) :
    List ((Delivery E H P × Option Raised × Bus E H) ⊕ Failure E) :=
  ends.flatMap fun y => .inl (⟨e, y.1, p⟩, y.2) :: (y.2.1.map fun m => .inr ⟨e, m⟩).toList

theorem does_deliver {xs : List (Subscriber H)} {b t : Bus E H}
    {own : List ((Delivery E H P × Option Raised × Bus E H) ⊕ Failure E)} {a : Except Raised Unit} :
    Step.Does (deliver e p xs b) own t a ↔ a = .ok () ∧ ∃ ends : List (Option Raised × Bus E H),
      ends.length = xs.length ∧ own = reports e p (xs.zip ends) ∧
        t = ends.foldl (fun _ y => y.2) b := by
  induction xs generalizing b own with
  | nil =>
    constructor
    · rintro ⟨⟩
      exact ⟨rfl, [], rfl, rfl, rfl⟩
    · rintro ⟨rfl, ends, hlen, rfl, rfl⟩
      obtain rfl : ends = [] := List.length_eq_zero_iff.1 hlen
      exact .done
  | cons x xs ih =>
    constructor
    · intro h
      -- a course of the first subscriber's, and then of the others'
      obtain _ | _ | @⟨_, u, _, _, _, failure, own, _, hown⟩ := h
      cases failure with
      | none =>
        obtain ⟨ha, ends, hlen, rfl, rfl⟩ := ih.1 hown
        exact ⟨ha, (none, u) :: ends, by simp [hlen], rfl, rfl⟩
      | some error =>
        obtain _ | ⟨hown⟩ := hown
        obtain ⟨ha, ends, hlen, rfl, rfl⟩ := ih.1 hown
        exact ⟨ha, (some error, u) :: ends, by simp [hlen], rfl, rfl⟩
    · rintro ⟨ha, _ | ⟨⟨failure, u⟩, ends⟩, hlen, rfl, rfl⟩
      · simp at hlen
      · have hrest : Step.Does (deliver e p xs u) (reports e p (xs.zip ends))
            (ends.foldl (fun _ y => y.2) u) a := ih.2 ⟨ha, ends, by simpa using hlen, rfl, rfl⟩
        cases failure with
        | none => exact .announce (r := none) hrest
        | some error => exact .announce (r := some error) (.say hrest)

omit [DecidableEq E] [DecidableEq H] in
theorem does_deliverNone {n : Nat} {b t : Bus E H}
    {own : List ((Delivery E H P × Option Raised × Bus E H) ⊕ Failure E)} {a : Except Raised Unit} :
    Step.Does (deliverNone e n b : Publishing E H P) own t a ↔
      a = .ok () ∧ own = List.replicate n (.inr ⟨e, noHandler⟩) ∧ t = b := by
  induction n generalizing own with
  | zero =>
    constructor
    · rintro ⟨⟩
      exact ⟨rfl, rfl, rfl⟩
    · rintro ⟨rfl, rfl, rfl⟩
      exact .done
  | succ n ih =>
    constructor
    · rintro (_ | h)
      obtain ⟨ha, rfl, ht⟩ := ih.1 h
      exact ⟨ha, rfl, ht⟩
    · rintro ⟨ha, rfl, ht⟩
      exact .say (ih.2 ⟨ha, rfl, ht⟩)

end Deliveries

section Others

/-- The call has to do with the topic. -/
def Call.concerns (e : E) : Call E H P → Prop
  | subscribe t _ | subscribeOnce t _ | unsubscribe t _ | dropTopic t | publish t _ => t = e
  | cancel s => s.topic = e
  | clear => True

variable {e : E} {b : Bus E H}

omit [DecidableEq H] in
theorem subscribers_filter {keep : Subscription E H → Bool} {l : List (Subscription E H)} {n : Nat}
    (h : ∀ s ∈ l, s.topic = e → keep s) :
    subscribers ⟨l.filter keep, n⟩ e = subscribers ⟨l, n⟩ e := by
  unfold subscribers
  congr 1
  rw [List.filter_filter]
  refine List.filter_congr fun s hs => ?_
  by_cases he : s.topic = e
  · simp [he, h s hs he]
  · simp [he]

theorem subscribers_add {s : Subscription E H} (hs : s.topic ≠ e) :
    (b.add s).subscribers e = b.subscribers e := by
  unfold add
  split
  · rfl
  · simp [subscribers, hs]

theorem spares_deliver {t : E} (ht : t ≠ e) (p : P) (xs : List (Subscriber H)) (b : Bus E H) :
    (deliver t p xs b).Spares (·.subscribers e) b := by
  induction xs generalizing b with
  | nil => rfl
  | cons x xs ih =>
    have hspend : (b.spend t x).subscribers e = b.subscribers e := by
      cases x with
      | lasting h => rfl
      | single n h =>
        refine subscribers_filter fun s _ hs => ?_
        simpa using fun hst => ht (by rw [← hs, hst])
    refine ⟨hspend, fun failure u => ?_⟩
    cases failure with
    | none => exact ih u
    | some message => exact ⟨rfl, ih u⟩

omit [DecidableEq H] in
theorem spares_deliverNone (t : E) (n : Nat) (b : Bus E H) :
    (deliverNone t n b : Publishing E H P).Spares (·.subscribers e) b := by
  induction n with
  | zero => rfl
  | succ n ih => exact ⟨rfl, ih⟩

variable [Topical E]

theorem subscribers_enter {s : Subscription E H} {m : Nat} (hs : s.topic ≠ e) :
    ({ b with serial := m }.enter s).2.subscribers e = b.subscribers e := by
  cases ht : inherited? s.topic with
  | none =>
    rw [enter_of_own ht]
    exact subscribers_add (b := { b with serial := m }) hs
  | some k =>
    rw [enter_of_inherited ht]
    rfl

theorem subscribers_cancel {s : Subscription E H} (hs : s.topic ≠ e) :
    (b.cancel s).2.subscribers e = b.subscribers e := by
  cases ht : inherited? s.topic with
  | none =>
    rw [cancel_of_own ht]
    refine subscribers_filter fun t _ hte => ?_
    have hts : t ≠ s := fun hts => hs (hts ▸ hte)
    simpa using hts
  | some k => rw [cancel_of_inherited ht]

/-- A call that has to do with other topics leaves the subscribers as they are. -/
theorem spares_run {c : Call E H P} (hc : ¬c.concerns e) (r : Option Raised) (b : Bus E H) :
    (c.run.run r b).Spares (·.subscribers e) b := by
  cases c with
  | subscribe t h => exact subscribers_enter (m := b.serial) hc
  | subscribeOnce t h => exact subscribers_enter hc
  | unsubscribe t h => exact subscribers_cancel hc
  | cancel t => exact subscribers_cancel hc
  | dropTopic t => exact subscribers_filter fun s _ hs => by simpa [hs] using fun h => hc h.symm
  | clear => exact absurd trivial hc
  | publish t p =>
    change (b.publish t p).Spares _ b
    cases ht : inherited? t with
    | none =>
      rw [publish_of_own ht]
      exact spares_deliver hc p _ b
    | some k =>
      rw [publish_of_inherited ht]
      exact spares_deliverNone t k b

end Others

variable [Topical E]

/-- Under an inherited name nobody can be subscribed, for good or for one call, or unsubscribed. -/
theorem run_of_inherited {e : E} {n : Nat} (he : inherited? e = some n) (x : H) (r : Option Raised)
    (b : Bus E H) :
    (Call.subscribe e x : Call E H P).run.run r b = .done b (.error (noSet "add")) ∧
    (Call.subscribeOnce e x : Call E H P).run.run r b =
      .done { b with serial := b.serial + 1 } (.error (noSet "add")) ∧
    (Call.unsubscribe e x : Call E H P).run.run r b = .done b (.error (noSet "delete")) := by
  refine ⟨?_, ?_, ?_⟩
  · change Step.done (b.enter ⟨e, .lasting x⟩).2 (discard (b.enter ⟨e, .lasting x⟩).1) = _
    rw [enter_of_inherited he]
    rfl
  · change Step.done (b.subscribeOnce e x).2 (discard (b.subscribeOnce e x).1) = _
    rw [subscribeOnce, enter_of_inherited he]
    rfl
  · change Step.done (b.cancel ⟨e, .lasting x⟩).2 (b.cancel ⟨e, .lasting x⟩).1 = _
    rw [cancel_of_inherited he]

/-- At every moment of a run of a bus, nested publications included. Those subscribed to a topic are
those that were registered and not removed since, each once, in the order in which they came. A
publication of the topic then reaches just these in this order with its payload, whatever they do,
reports each of them that fails, once, and ends; and every such course is possible. Handlers that
call the bus take one of these courses. Only under a name that the table inherits it is not so:
nobody is or can be subscribed there, and a publication reports a failure for each entry of what is
inherited. A call that has to do with other topics spares these subscribers. -/
theorem publish_reaches_registered {h : List (Bus E H × (Call E H P ⊕ Delivery E H P))}
    {b : Bus E H} (m : Moment Call.run {} h b) (e : E) :
    (∀ x, x ∈ b.subscribers e ↔ Registered h ⟨e, x⟩) ∧
    (b.subscribers e).Pairwise (fun x y => Earlier h ⟨e, x⟩ ⟨e, y⟩) ∧
    (b.subscribers e).Nodup ∧
    (inherited? e = none → ∀ (p : P) r own t a,
      Step.Does ((Call.publish e p).run.run r b) own t a ↔ a = .ok () ∧
        ∃ ends : List (Option Raised × Bus E H), ends.length = (b.subscribers e).length ∧
          own = reports e p ((b.subscribers e).zip ends) ∧
            t = ends.foldl (fun _ y => y.2) b) ∧
    (∀ n, inherited? e = some n → b.subscribers e = [] ∧
      (∀ (x : H) r,
        (Call.subscribe e x : Call E H P).run.run r b = .done b (.error (noSet "add")) ∧
        (Call.subscribeOnce e x : Call E H P).run.run r b =
          .done { b with serial := b.serial + 1 } (.error (noSet "add")) ∧
        (Call.unsubscribe e x : Call E H P).run.run r b = .done b (.error (noSet "delete"))) ∧
      ∀ (p : P) r own t a, Step.Does ((Call.publish e p).run.run r b) own t a ↔
        a = .ok () ∧ own = List.replicate n (.inr ⟨e, noHandler⟩) ∧ t = b) ∧
    (∀ (p : P) r d t a, Step.Writes Call.run ((Call.publish e p).run.run r b) d t a →
      ∃ own, Step.Does ((Call.publish e p).run.run r b) own t a ∧
        (ownEvents own).Sublist (writtenEvents d)) ∧
    ∀ c : Call E H P, ¬c.concerns e → ∀ r, (c.run.run r b).Spares (·.subscribers e) b := by
  have hk : Kept h b.subscriptions := m.holds kept_nil fun c h r b hk => records_run c r hk
  have hmem (x : Subscriber H) : x ∈ b.subscribers e ↔ Registered h ⟨e, x⟩ :=
    mem_subscribers.trans (hk.mem _)
  have horder : (b.subscribers e).Pairwise fun x y => Earlier h ⟨e, x⟩ ⟨e, y⟩ := by
    refine List.pairwise_map.2 ((hk.order.filter _).imp_of_mem ?_)
    rintro ⟨e₁, x⟩ ⟨e₂, y⟩ hx hy hxy
    obtain rfl : e₁ = e := of_decide_eq_true (List.mem_filter.1 hx).2
    obtain rfl : e₂ = e₁ := of_decide_eq_true (List.mem_filter.1 hy).2
    exact hxy
  refine ⟨hmem, horder, ?_, ?_, ?_, ?_, ?_⟩
  · exact horder.imp fun hxy he => hxy.ne (by rw [he])
  · intro he p r own t a
    change Step.Does (b.publish e p) own t a ↔ _
    rw [publish_of_own he]
    exact does_deliver e p
  · intro n he
    refine ⟨subscribers_of_inherited hk.own he, fun x r => run_of_inherited he x r b,
      fun p r own t a => ?_⟩
    change Step.Does (b.publish e p) own t a ↔ _
    rw [publish_of_inherited he]
    exact does_deliverNone e
  · intro p r d t a run
    exact run.does
  · intro c hc r
    exact spares_run hc r b

/-- The moment at which the first handler publishes again, before the second one's turn. -/
theorem publish_reaches_registered_nested :
    Moment Call.run {} (nested.take 4) two ∧
    two.subscribers () = [.lasting true, .single 0 false] ∧
    Registered (nested.take 4) ⟨(), .single 0 false⟩ ∧
    Earlier (nested.take 4) ⟨(), .lasting true⟩ ⟨(), .single 0 false⟩ := by
  have m : Moment Call.run {} (nested.take 4) two :=
    ⟨nested, one, diary_nested, .later (.later (.later (.later .call)))⟩
  obtain ⟨hmem, horder, -⟩ := publish_reaches_registered m ()
  refine ⟨m, rfl, (hmem _).1 ?_, ?_⟩
  · decide
  · have h : [Subscriber.lasting true, .single 0 false].Pairwise
        fun x y => Earlier (nested.take 4) ⟨(), x⟩ ⟨(), y⟩ := horder
    exact List.rel_of_pairwise_cons h List.mem_cons_self

/-- Nobody is subscribed, and a failure is reported. -/
theorem not_reports_constructor :
    ¬∀ (h : List (Bus String Bool × (Call String Bool Nat ⊕ Delivery String Bool Nat)))
      (b : Bus String Bool), Moment Call.run {} h b →
      ∀ (p : Nat) r own t a, Step.Does ((Call.publish "constructor" p).run.run r b) own t a →
        ∃ ends : List (Option Raised × Bus String Bool),
          ends.length = (b.subscribers "constructor").length ∧
            own = reports "constructor" p ((b.subscribers "constructor").zip ends) := by
  intro h
  have m : Moment Call.run {} ([] : List (Bus String Bool × (Call String Bool Nat ⊕
      Delivery String Bool Nat))) {} := Diary.nil.moment
  obtain ⟨ends, hlen, hown⟩ := h [] {} m 1 none [.inr ⟨"constructor", noHandler⟩] {} (.ok ())
    (.say .done)
  obtain rfl : ends = [] := List.length_eq_zero_iff.1 hlen
  cases hown

end HandheldUI.Bus
