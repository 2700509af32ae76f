import HandheldUI.Proofs.Action.Journal
import HandheldUI.Proofs.Sidebar.Moves

/-! When the toast is shown, listeners that call the sidebar included. An update that has ended a
phase looks at the sidebar again when the listeners of that move are done, so what they do decides:
the toast belongs to the first update that finds the sidebar in then. -/

namespace HandheldUI.Sidebar

/-- The call is an update, alone or with the rest of a frame. -/
def Call.isUpdate : Call → Bool
  | advance | tick => true
  | _ => false

section Histories

variable {α : Type}

abbrev Entry (α : Type) := State α × Deed Call Event

/-- The place of the update that ends a collapse here. -/
def endsCollapse? : Entry α → Option Nat
  | (_, .told n c (.moved .collapsing .collapsed)) => if c.isUpdate then some n else none
  | _ => none

/-- The place of the update whose listeners are done with its move and have left the sidebar in. -/
def findsIn? : Entry α → Option Nat
  | (s, .heard n c (.moved _ _)) => if c.isUpdate && s.isIn then some n else none
  | _ => none

/-- The place of the call that shows the toast here. -/
def showsToast? : Entry α → Option Nat
  | (_, .told n _ .toast) => some n
  | _ => none

/-- The places of the calls that have shown the toast. -/
def toasts (h : List (Entry α)) : List Nat := h.filterMap showsToast?

/-- The next entry, if the listeners of a move that an update has made do nothing. -/
def answer? : Entry α → Option (Entry α)
  | (s, .told n c (.moved p q)) => if c.isUpdate then some (s, .heard n c (.moved p q)) else none
  | _ => none

/-- No listener of a move that an update has made calls the sidebar. -/
def HeardAtOnce (h : List (Entry α)) : Prop :=
  ∀ before y after, h = before ++ y :: after → ∀ a, answer? y = some a → ∃ rest, after = a :: rest

/-- The first update to end a collapse is the first one to find the sidebar in. -/
def SameFirst (h : List (Entry α)) : Prop := h.findSome? endsCollapse? = h.findSome? findsIn?

/-- The toast has been shown by the first update that found the sidebar in, and by nothing else. If
listeners left it at that, this is the first update that has ended a collapse. -/
structure ShownOnce (h : List (Entry α)) (s : State α) : Prop where
  toasts_eq : toasts h = (h.findSome? findsIn?).toList
  spent_eq : s.toast.spent = (h.findSome? findsIn?).isSome
  same : HeardAtOnce h → SameFirst h

variable {h h' l : List (Entry α)} {s t u : State α} {y : Entry α} {n : Nat} {c : Call} {p q : Phase}

theorem toasts_concat (h : List (Entry α)) (y : Entry α) :
    toasts (h ++ [y]) = toasts h ++ (showsToast? y).toList := by
  rw [toasts, List.filterMap_append]
  cases hy : showsToast? y <;> simp [toasts, hy]

theorem findSome?_concat (f : Entry α → Option Nat) (h : List (Entry α)) (y : Entry α) :
    (h ++ [y]).findSome? f = (h.findSome? f).or (f y) := by
  rw [List.findSome?_append]
  cases hy : f y <;> simp [hy]

/-- Only the end of the listeners' turn with an update's move is an answer. -/
theorem exists_of_answer? {x : Entry α} (hx : answer? x = some y) :
    ∃ n c p q, y.2 = .heard n c (.moved p q) ∧ c.isUpdate := by
  unfold answer? at hx
  split at hx
  · next n c p q =>
    split at hx
    · next hc =>
      cases hx
      exact ⟨n, c, p, q, rfl, hc⟩
    · cases hx
  · cases hx

theorem answer?_ne_made (x : Entry α) : answer? x ≠ some (s, .made c) := by
  intro hx
  obtain ⟨_, _, _, _, hy, -⟩ := exists_of_answer? hx
  cases hy

theorem answer?_ne_told {e : Event} (x : Entry α) : answer? x ≠ some (s, .told n c e) := by
  intro hx
  obtain ⟨_, _, _, _, hy, -⟩ := exists_of_answer? hx
  cases hy

theorem answer?_ne_heard {e : Event} (hy : c.isUpdate = false ∨ e = .toast) (x : Entry α) :
    answer? x ≠ some (s, .heard n c e) := by
  intro hx
  obtain ⟨_, _, _, _, he, hc⟩ := exists_of_answer? hx
  cases he
  simp [hc] at hy

theorem HeardAtOnce.of_append (hat : HeardAtOnce (h ++ l))
    (hl : ∀ x z, answer? x = some z → l.head? ≠ some z) : HeardAtOnce h := by
  rintro before x after rfl a ha
  obtain ⟨rest, hrest⟩ := hat before x (after ++ l) (by simp) a ha
  cases after with
  | nil =>
    have hl : l.head? ≠ some a := hl x a ha
    rw [List.nil_append] at hrest
    simp [hrest] at hl
  | cons z after =>
    obtain ⟨rfl, -⟩ := List.cons.inj hrest
    exact ⟨after, rfl⟩

theorem HeardAtOnce.of_concat (hat : HeardAtOnce (h ++ [y])) (hy : ∀ x, answer? x ≠ some y) :
    HeardAtOnce h := by
  refine hat.of_append fun x z hx hz => ?_
  cases hz
  exact hy x hx

theorem shownOnce_nil (hs : s.toast.spent = false) : ShownOnce [] s := ⟨rfl, hs, fun _ => rfl⟩

namespace ShownOnce

/-- The rest of the state does not matter. -/
theorem of_spent (hk : ShownOnce h s) (ht : t.toast.spent = s.toast.spent) : ShownOnce h t :=
  ⟨hk.toasts_eq, ht.trans hk.spent_eq, hk.same⟩

/-- An entry without a toast changes nothing if the toast is spent or no sidebar is found in. -/
theorem concat_of_same (hk : ShownOnce h s) (hshow : showsToast? y = none)
    (hfind : findsIn? y = none ∨ s.toast.spent)
    (hsame : HeardAtOnce (h ++ [y]) → SameFirst (h ++ [y])) : ShownOnce (h ++ [y]) s := by
  have hfirst : (h ++ [y]).findSome? findsIn? = h.findSome? findsIn? := by
    rw [findSome?_concat]
    rcases hfind with hy | hs
    · rw [hy, Option.or_none]
    · rw [hk.spent_eq] at hs
      exact Option.or_eq_left_of_isSome hs
  refine ⟨?_, by rw [hfirst, hk.spent_eq], hsame⟩
  rw [toasts_concat, hshow, hfirst, hk.toasts_eq]
  simp

/-- Most entries tell nothing new. -/
theorem concat (hk : ShownOnce h s) (hshow : showsToast? y = none) (hfind : findsIn? y = none)
    (hends : endsCollapse? y = none) (hy : ∀ x, answer? x ≠ some y) : ShownOnce (h ++ [y]) s := by
  refine hk.concat_of_same hshow (.inl hfind) fun hat => ?_
  rw [SameFirst, findSome?_concat, findSome?_concat, hends, hfind, hk.same (hat.of_concat hy)]

theorem made (hk : ShownOnce h s) : ShownOnce (h ++ [(s, .made c)]) s :=
  hk.concat rfl rfl rfl answer?_ne_made

theorem told (hk : ShownOnce h s) (hc : c.isUpdate = false) :
    ShownOnce (h ++ [(t, .told n c (.moved p q))]) s := by
  have hends : endsCollapse? (t, .told n c (.moved p q)) = none := by
    cases p <;> cases q <;> simp [endsCollapse?, hc]
  exact hk.concat rfl rfl hends answer?_ne_told

theorem heard (hk : ShownOnce h s) (hc : c.isUpdate = false) (e : Event) :
    ShownOnce (h ++ [(t, .heard n c e)]) s := by
  have hfind : findsIn? (t, .heard n c e) = none := by
    cases e <;> simp [findsIn?, hc]
  exact hk.concat rfl hfind rfl (answer?_ne_heard (.inl hc))

/-- Listeners have not answered yet when an update tells its move. -/
theorem told_update (hk : ShownOnce h s) (hc : c.isUpdate) :
    ShownOnce (h ++ [(t, .told n c (.moved p q))]) s := by
  refine hk.concat_of_same rfl (.inl rfl) fun hat => ?_
  obtain ⟨rest, hrest⟩ := hat h _ [] rfl (t, .heard n c (.moved p q)) (by simp [answer?, hc])
  cases hrest

/-- If they answer at once, they have left the sidebar where the update has brought it. -/
theorem same_heard (hk : ShownOnce h s) (hc : c.isUpdate) (he : p.end? = some q)
    (hs : u.phase = q) (hgoes : Goes (h ++ [(u, .told n c (.moved p q))]) u h' t)
    (hat : HeardAtOnce (h' ++ [(t, .heard n c (.moved p q))])) :
    SameFirst (h' ++ [(t, .heard n c (.moved p q))]) := by
  rcases hgoes with ⟨rfl, rfl⟩ | ⟨k, d, rfl⟩
  · have hends : endsCollapse? (t, .told n c (.moved p q)) =
        findsIn? (t, .heard n c (.moved p q)) := by
      cases p <;> cases he <;> simp [endsCollapse?, findsIn?, State.isIn, hc, hs]
    have hbefore : HeardAtOnce h := by
      rw [List.append_assoc] at hat
      refine hat.of_append fun x z hx hz => ?_
      cases hz
      exact answer?_ne_told x hx
    have hsame : h.findSome? endsCollapse? = h.findSome? findsIn? := hk.same hbefore
    have htold : findsIn? (t, .told n c (.moved p q)) = none := rfl
    have hheard : endsCollapse? (t, .heard n c (.moved p q)) = none := rfl
    simp only [SameFirst, findSome?_concat, hsame, htold, hheard, hends, Option.or_none]
  · -- a listener has made a call
    obtain ⟨rest, hrest⟩ := hat h (u, .told n c (.moved p q))
      ((u, .made k) :: d ++ [(t, .heard n c (.moved p q))]) (by simp)
      (u, .heard n c (.moved p q)) (by simp [answer?, hc])
    cases hrest

/-- The first time that the sidebar is found in, the toast comes next. -/
theorem show_toast (hk : ShownOnce h s) (hs : s.toast.spent = false)
    (hy : showsToast? y = none) (hfind : findsIn? y = some n)
    (hsame : HeardAtOnce (h ++ [y]) → SameFirst (h ++ [y])) (hu : u.toast.spent) :
    ShownOnce (h ++ [y] ++ [(u, .told n c .toast)]) u := by
  have hnone : h.findSome? findsIn? = none := by
    rw [← Option.not_isSome_iff_eq_none, ← hk.spent_eq, hs]
    decide
  have hfirst : (h ++ [y]).findSome? findsIn? = some n := by
    rw [findSome?_concat, hnone, hfind]
    rfl
  have hfirst' : (h ++ [y] ++ [(u, Deed.told n c Event.toast)]).findSome? findsIn? = some n := by
    rw [findSome?_concat, hfirst]
    rfl
  refine ⟨?_, by rw [hfirst', hu]; rfl, fun hat => ?_⟩
  · rw [toasts_concat, toasts_concat, hy, hfirst', hk.toasts_eq, hnone]
    rfl
  · rw [SameFirst, hfirst', findSome?_concat, hsame (hat.of_concat answer?_ne_told), hfirst]
    rfl

end ShownOnce

end Histories

variable {α : Type} [Scalar α]

section Logged

variable {h : List (Entry α)} {n : Nat} {c : Call} {s : State α} (r : Env α)

@[simp] theorem State.spent_faded (now : α) : (s.faded now).toast.spent = s.toast.spent := by
  unfold State.faded
  split <;> rfl

@[simp] theorem State.spent_waved (now : α) : (s.waved now).toast.spent = s.toast.spent := by
  unfold State.waved
  split <;> rfl

omit [Scalar α] in
/-- A call that is no update may tell a move. -/
theorem logged_move {t : State α} {p q : Phase} (hk : ShownOnce h s)
    (ht : t.toast.spent = s.toast.spent) (hc : c.isUpdate = false) :
    (Step.announce t (.moved p q) fun _ t => .done t () : Step (Env α) _ _ Note _).Logged
      ShownOnce n c h :=
  ⟨(hk.told hc).of_spent ht, fun _ _ _ _ hk => hk.heard hc _⟩

theorem logged_begin {t : State α} {new : Phase} (hk : ShownOnce h s)
    (ht : t.toast.spent = s.toast.spent) (hc : c.isUpdate = false) :
    ((begin new).run r t).Logged ShownOnce n c h := by
  rw [run_begin]
  exact logged_move hk ht hc

theorem logged_collapse {byContent : Bool} (hk : ShownOnce h s) (hc : c.isUpdate = false) :
    ((collapse byContent).run r s).Logged ShownOnce n c h := by
  rw [run_collapse]
  split
  · exact hk
  · split
    · exact logged_begin r hk rfl hc
    · exact hk

theorem logged_expand (hk : ShownOnce h s) (hc : c.isUpdate = false) :
    (expand.run r s).Logged ShownOnce n c h := by
  rw [run_expand]
  split
  · exact logged_begin r hk rfl hc
  · exact hk

theorem logged_advance (hk : ShownOnce h s) (hc : c.isUpdate) :
    (advance.run r s).Logged ShownOnce n c h := by
  rw [run_advance]
  cases he : s.phase.end? with
  | none => exact hk
  | some target =>
    dsimp only
    split
    · refine ⟨(hk.told_update hc).of_spent rfl, fun h' r' t hgoes hk' => ?_⟩
      have hsame := hk.same_heard hc he rfl hgoes
      -- the listeners are done, and the sidebar is looked at again
      dsimp only
      split
      · next hin =>
        rw [run_showToast]
        split
        · next hspent => exact hk'.concat_of_same rfl (.inr hspent) hsame
        · next hspent =>
          have hfind : findsIn? (t, .heard n c (.moved s.phase target)) = some n := by
            simp [findsIn?, hc, hin]
          refine ⟨hk'.show_toast (Bool.eq_false_iff.2 hspent) rfl hfind hsame rfl, ?_⟩
          exact fun _ _ _ _ hk => hk.concat rfl rfl rfl (answer?_ne_heard (.inr rfl))
      · next hin => exact hk'.concat_of_same rfl (.inl (by simp [findsIn?, hin])) hsame
    · exact hk.of_spent rfl

theorem logged_run (c : Call) (hk : ShownOnce h s) :
    (c.run.run r s).Logged ShownOnce n c (h ++ [(s, .made c)]) := by
  cases c with
  | collapse byContent => exact logged_collapse r hk.made rfl
  | expand => exact logged_expand r hk.made rfl
  | flip =>
    change (flip.run r s).Logged ShownOnce n _ _
    rw [run_flip]
    split
    · exact logged_collapse r hk.made rfl
    · split
      · exact logged_expand r hk.made rfl
      · exact hk.made
  | shut =>
    change (shut.run r s).Logged ShownOnce n _ _
    rw [run_shut]
    split
    · exact hk.made.of_spent rfl
    · exact logged_move hk.made rfl rfl
  | advance => exact logged_advance r hk.made rfl
  | fadeToast =>
    change (fadeToast.run r s).Logged ShownOnce n _ _
    rw [run_fadeToast]
    exact hk.made.of_spent (s.spent_faded r.now)
  | tick =>
    change (tick.run r s).Logged ShownOnce n _ _
    rw [run_tick]
    refine Step.Logged.bind (logged_advance r hk.made rfl) fun _ h r s hk => ?_
    exact hk.of_spent (by rw [State.spent_waved, State.spent_faded])

end Logged

/-- Over every run, whatever listeners ask for, the toast is shown once, by the first update that
finds the sidebar in when the listeners of its move are done, and by nothing else. So the first
update that ends a collapse shows it, and nothing else, just if that is the same update; and so it
is where no listener of an update's move calls the sidebar. -/
theorem toasts_of_journal {h : List (Entry α)} {t : State α}
    (run : Journal Call.run State.initial [] h t) :
    toasts h = (h.findSome? findsIn?).toList ∧
    (toasts h = (h.findSome? endsCollapse?).toList ↔ SameFirst h) ∧
    (HeardAtOnce h → toasts h = (h.findSome? endsCollapse?).toList) := by
  have hk : ShownOnce h t := run.holds (fun c _ r _ hk => logged_run r c hk) (shownOnce_nil rfl)
  have hiff : toasts h = (h.findSome? endsCollapse?).toList ↔ SameFirst h := by
    rw [hk.toasts_eq]
    constructor
    · intro he
      rw [SameFirst, ← Option.head?_toList (o := h.findSome? endsCollapse?), ← he,
        Option.head?_toList]
    · intro he
      rw [SameFirst] at he
      rw [he]
  exact ⟨hk.toasts_eq, hiff, fun hat => hiff.2 (hk.same hat)⟩

section Runs

def toasted (s : State Rat) : State Rat := { s with toast := ⟨true, true, 0⟩ }

def back : State Rat := returning.passing .collapsed 1

/-- The sidebar goes out. -/
def wentOut : List (Entry Rat) :=
  [(State.initial, .made .expand), (leaving, .told 0 .expand (.moved .collapsed .expanding)),
    (leaving, .heard 0 .expand (.moved .collapsed .expanding)), (leaving, .made .advance),
    (out, .told 3 .advance (.moved .expanding .expanded))]

/-- Nobody minds, and it goes back in. -/
def returned : List (Entry Rat) :=
  wentOut ++
    [(out, .heard 3 .advance (.moved .expanding .expanded)), (out, .made (.collapse false)),
      (returning, .told 6 (.collapse false) (.moved .expanded .collapsing)),
      (returning, .heard 6 (.collapse false) (.moved .expanded .collapsing)),
      (returning, .made .advance), (back, .told 9 .advance (.moved .collapsing .collapsed)),
      (back, .heard 9 .advance (.moved .collapsing .collapsed)),
      (toasted back, .told 9 .advance .toast), (toasted back, .heard 9 .advance .toast)]

/-- A listener that hears that it is out shuts it. -/
def slammed : List (Entry Rat) :=
  wentOut ++
    [(out, .made .shut), (out.shut, .told 5 .shut (.moved .expanded .collapsed)),
      (out.shut, .heard 5 .shut (.moved .expanded .collapsed)),
      (out.shut, .heard 3 .advance (.moved .expanding .expanded)),
      (toasted out.shut, .told 3 .advance .toast), (toasted out.shut, .heard 3 .advance .toast)]

theorem logs_expand : Step.Logs Call.run 0 .expand (wentOut.take 1)
    ((Call.expand.run (α := Rat)).run hasty State.initial) (wentOut.take 3) leaving () :=
  .say (.announce (r := hasty) .nil .done)

theorem journal_returned : Journal Call.run State.initial [] returned (toasted back) := by
  have expanded : Step.Logs Call.run 3 .advance (returned.take 4)
      (Call.advance.run.run hasty leaving) (returned.take 6) out () := by
    rw [show Call.advance.run.run hasty leaving = _ from run_advance hasty leaving]
    exact .say (.announce (r := hasty) .nil .done)
  have collapsed : Step.Logs Call.run 6 (.collapse false) (returned.take 7)
      ((Call.collapse false).run.run hasty out) (returned.take 9) returning () :=
    .say (.announce (r := hasty) .nil .done)
  have wentIn : Step.Logs Call.run 9 .advance (returned.take 10)
      (Call.advance.run.run hasty returning) returned (toasted back) () := by
    rw [show Call.advance.run.run hasty returning = _ from run_advance hasty returning]
    exact .say (.announce (r := hasty) .nil (.announce (r := hasty) .nil .done))
  exact .cons (r := hasty) logs_expand (.cons (r := hasty) (c := Call.advance) expanded
    (.cons (r := hasty) (c := Call.collapse false) collapsed
      (.cons (r := hasty) (c := Call.advance) wentIn .nil)))

theorem toasts_of_journal_returned :
    Journal Call.run State.initial [] returned (toasted back) ∧ toasts returned = [9] ∧
    toasts returned = (returned.findSome? endsCollapse?).toList := by
  obtain ⟨htoasts, hiff, -⟩ := toasts_of_journal journal_returned
  exact ⟨journal_returned, htoasts, hiff.2 rfl⟩

theorem journal_slammed : Journal Call.run State.initial [] slammed (toasted out.shut) := by
  have shut : Step.Logs Call.run 5 .shut (slammed.take 6) ((Call.shut.run (α := Rat)).run hasty out)
      (slammed.take 8) out.shut () :=
    .announce (r := hasty) .nil .done
  have expanded : Step.Logs Call.run 3 .advance (slammed.take 4)
      (Call.advance.run.run hasty leaving) slammed (toasted out.shut) () := by
    rw [show Call.advance.run.run hasty leaving = _ from run_advance hasty leaving]
    exact .say (.announce (r := hasty) (.cons (r := hasty) shut .nil)
      (.announce (r := hasty) .nil .done))
  exact .cons (r := hasty) logs_expand (.cons (r := hasty) (c := Call.advance) expanded .nil)

/-- There the toast is shown, and no collapse has ended. -/
theorem toasts_slammed :
    ¬∀ (h : List (Entry Rat)) (t : State Rat), Journal Call.run State.initial [] h t →
      toasts h = (h.findSome? endsCollapse?).toList := by
  intro hall
  have he : toasts slammed = [] := hall slammed _ journal_slammed
  cases (show [3] = [] from he)

end Runs

end HandheldUI.Sidebar
