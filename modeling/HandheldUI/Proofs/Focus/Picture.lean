import HandheldUI.Proofs.Action.History
import HandheldUI.Proofs.Action.Moment
import HandheldUI.Proofs.Focus.Sound

/-! What the events of the focus give away. Who hears all of them, and nothing else, can tell at any
time how many covers there are and which zone lies below them: every event is told before the state
changes again, however deep in other events it happens. -/

namespace HandheldUI.Focus

/-- What can be known of the focus from its events. -/
structure Picture where
  depth : Nat := 0
  base : Zone := .main
  deriving DecidableEq

namespace Picture

/-- The picture after one more event. -/
def hear (p : Picture) : Event → Picture
  | .covered d | .uncovered d => { p with depth := d }
  | .moved _ new => { p with base := new }
  | .refused _ => p

/-- The event is one that can follow upon this picture. -/
def Expects (p : Picture) : Event → Prop
  | .covered d => d = p.depth + 1
  | .uncovered d => p.depth = d + 1
  | .moved old new => old = p.base ∧ old ≠ new ∧ p.depth = 0
  | .refused _ => True

end Picture

def pictured (events : List Event) : Picture := events.foldl .hear {}

theorem pictured_concat (events : List Event) (e : Event) :
    pictured (events ++ [e]) = (pictured events).hear e :=
  List.foldl_append

/-- What the picture has to show. -/
def picture (f : Focus) : Picture := ⟨f.depth, f.base.zone⟩

section Writes

variable {f : Focus} {o : Owner}

theorem Sound.setTop (h : f.Sound) (ho : 0 < f.depth → o.zone = .overlay) :
    (f.setTop o).Sound :=
  (Based.setTop (A := fun _ => True) h (fun hd => ⟨ho hd, trivial⟩) fun _ => trivial).sound

theorem picture_setTop (h : f.depth = 0 → o.zone = f.zone) : (f.setTop o).picture = f.picture := by
  rw [picture, depth_setTop, picture]
  obtain ⟨b, covers⟩ := f
  cases covers with
  | nil => rw [show (Focus.setTop o ⟨b, []⟩).base.zone = b.zone from h rfl]
  | cons o' rest => rfl

theorem picture_setTop_of_bare (h : f.depth = 0) :
    (f.setTop o).picture = { f.picture with base := o.zone } := by
  rw [picture, depth_setTop, picture]
  obtain ⟨b, covers⟩ := f
  obtain rfl : covers = [] := List.length_eq_zero_iff.1 h
  rfl

end Writes

variable {α : Type} [Scalar α]

section Records

variable {h : List (Focus × (Call α ⊕ Event))} {f g : Focus} {c : Call α}

/-- The events so far were to be expected, and they picture the focus as it is. -/
structure Pictures (h : List (Focus × (Call α ⊕ Event))) (f : Focus) : Prop where
  sound : f.Sound
  expected : History.Always (fun before e => (pictured before).Expects e) (writtenEvents h)
  shown : pictured (writtenEvents h) = f.picture

namespace Pictures

omit [Scalar α]

theorem call (k : Pictures h f) : Pictures (h ++ [(f, .inl c)]) f := by
  constructor
  · exact k.sound
  · rw [writtenEvents_concat_call]
    exact k.expected
  · rw [writtenEvents_concat_call]
    exact k.shown

/-- A write that cannot be seen in the picture needs no event. -/
theorem write (k : Pictures h f) (hg : g.Sound) (hp : g.picture = f.picture) : Pictures h g :=
  ⟨hg, k.expected, k.shown.trans hp.symm⟩

/-- Any other write is told by the event that changes the picture alike. -/
theorem told {e : Event} (k : Pictures h f) (hg : g.Sound) (he : f.picture.Expects e)
    (hp : g.picture = f.picture.hear e) : Pictures (h ++ [(g, .inr e)]) g := by
  constructor
  · exact hg
  · rw [writtenEvents_concat_event, History.always_concat, k.shown]
    exact ⟨k.expected, he⟩
  · rw [writtenEvents_concat_event, pictured_concat, k.shown, hp]

end Pictures

omit [Scalar α] in
theorem records_refused (why : Refusal) (k : Pictures h f) :
    (refused why f).Records Pictures h :=
  ⟨k.told k.sound trivial rfl, fun _ _ _ k => k⟩

theorem records_cover (k : Pictures h f) :
    ((Call.cover : Call α).run.run () f).Records Pictures h := by
  rw [run_cover]
  split
  · next hd =>
    have hg : Based (fun _ => True) { f with covers := { zone := .overlay } :: f.covers } :=
      .covered ⟨k.sound, trivial⟩ hd
    exact ⟨k.told hg.sound rfl rfl, fun _ _ _ k => k⟩
  · exact records_refused _ k

theorem records_uncover (k : Pictures h f) :
    ((Call.uncover : Call α).run.run () f).Records Pictures h := by
  rw [run_uncover]
  split
  · next hd =>
    have hg : Based (fun _ => True) { f with covers := f.covers.tail } :=
      .uncovered ⟨k.sound, trivial⟩
    have hdepth : ({ f with covers := f.covers.tail } : Focus).depth = f.depth - 1 :=
      List.length_tail
    refine ⟨k.told hg.sound ?_ ?_, fun _ _ _ k => k⟩
    · change f.depth = f.depth - 1 + 1
      omega
    · rw [picture, hdepth]
      rfl
  · exact records_refused _ k

omit [Scalar α] in
theorem records_give (z : Zone) (k : Pictures h f) : ((give z).run () f).Records Pictures h := by
  rw [run_give]
  split
  · exact k
  · next hz =>
    have hcover (hd : 0 < f.depth) : z = .overlay := Classical.not_not.1 fun hn => hz ⟨hd, hn⟩
    have hg : (f.setTop { f.top with zone := z }).Sound := k.sound.setTop hcover
    dsimp only
    split
    · next hm =>
      -- an overlay's zone is the same as ever, so the base owner has moved
      have hd : f.depth = 0 := by
        by_contra hn
        have hpos : 0 < f.depth := Nat.pos_of_ne_zero hn
        exact hm ((k.sound.zone_of_pos hpos).trans (hcover hpos).symm)
      have hzone : f.zone = f.base.zone := by rw [zone, top_of_depth_eq_zero hd]
      exact ⟨k.told hg ⟨hzone, hm, hd⟩ (picture_setTop_of_bare hd), fun _ _ _ k => k⟩
    · next hm => exact k.write hg (picture_setTop fun _ => (Classical.not_not.1 hm).symm)

theorem records_run (c : Call α) (k : Pictures h f) :
    (c.run.run () f).Records Pictures (h ++ [(f, .inl c)]) := by
  have give_then (z : Zone) :
      ((give z *> pure none : Op (Option Bool)).run () f).Records Pictures (h ++ [(f, .inl c)]) :=
    (records_give z k.call).bind fun _ _ _ _ k => k
  cases c with
  | give z => exact give_then z
  | toSidebar => exact give_then .sidebar
  | toContent screen => exact give_then screen.content
  | pointAt x =>
    have hg : (f.pointAt (itemOf x)).Sound := k.sound.setTop k.sound.zone_of_pos
    exact k.call.write hg (picture_setTop fun _ => rfl)
  | cover => exact records_cover k.call
  | uncover => exact records_uncover k.call

end Records

/-- At every moment of a run, whatever calls listeners make inside of events: each event told so far
was the one to expect from those before it, and together they picture how many covers there are and
which zone is below them. -/
theorem pictured_of_moment {h : List (Focus × (Call α ⊕ Event))} {g : Focus}
    (m : Moment (Call.run : Call α → Op (Option Bool)) {} h g) :
    History.Always (fun before e => (pictured before).Expects e) (writtenEvents h) ∧
    pictured (writtenEvents h) = ⟨g.depth, g.base.zone⟩ := by
  have initial : Pictures ([] : List (Focus × (Call α ⊕ Event))) {} :=
    ⟨sound_initial, History.always_nil, rfl⟩
  have k : Pictures h g := m.holds initial fun c _ _ _ k => records_run c k
  exact ⟨k.expected, k.shown⟩

/-- Three calls, each made inside of the event of the one before. -/
def nested : List (Focus × (Call Rat ⊕ Event)) :=
  [({}, .inl (.give .settings)), ({ base.zone := .settings }, .inr (.moved .main .settings)),
    ({ base.zone := .settings }, .inl .cover),
    ({ base.zone := .settings, covers := [{ zone := .overlay }] }, .inr (.covered 1)),
    ({ base.zone := .settings, covers := [{ zone := .overlay }] }, .inl .uncover),
    ({ base.zone := .settings }, .inr (.uncovered 0))]

theorem diary_nested : Diary Call.run {} nested { base.zone := .settings } := by
  let call : Call Rat → Op (Option Bool) := Call.run
  let f : Focus := { base.zone := .settings }
  let g : Focus := { f with covers := [{ zone := .overlay }] }
  have uncovered : Step.Writes call ((call .uncover).run () g) [(f, .inr (.uncovered 0))] f
      (some true) :=
    .announce (r := ()) .nil (.say .done)
  have third : Diary call g (nested.drop 4) f := .cons uncovered .nil
  have covered : Step.Writes call ((call .cover).run () f)
      ((g, .inr (.covered 1)) :: nested.drop 4 ++ []) f (some true) :=
    .announce (r := ()) third (.say .done)
  have second : Diary call f (nested.drop 2) f := .cons covered .nil
  have given : Step.Writes call ((call (.give .settings)).run () {})
      ((f, .inr (.moved .main .settings)) :: nested.drop 2 ++ []) f none :=
    .say (.announce (r := ()) second .done)
  exact .cons given .nil

theorem pictured_of_moment_nested : Moment Call.run {} nested { base.zone := .settings } ∧
    writtenEvents nested = [.moved .main .settings, .covered 1, .uncovered 0] ∧
    pictured (writtenEvents nested) = ⟨0, .settings⟩ := by
  have m : Moment Call.run {} nested { base.zone := .settings } :=
    ⟨nested, _, diary_nested, .later (.later (.later (.later (.later .event))))⟩
  exact ⟨m, rfl, (pictured_of_moment m).2⟩

end HandheldUI.Focus
