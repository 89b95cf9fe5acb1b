import Jvm.Proofs.Machine.Alike

/-!
# Actions that keep the heap in order and do not look at the meter

`Exec.Refines P x y` is what holds of every action of the machine: `x` leaves the heap in order and the
call stack as it was (`State.Evolves`), and its result satisfies `P`; and where `x` succeeds, so does `y`,
in the same way, also from a state in which more instructions have been counted and more classes are set
up, as long as these have no code of their own to do so (`State.Precedes`). All that `y` may do otherwise
is to reach a limit.

Everything but the calls between methods is the same action on both sides, so that it is enough for
actions to be built alike (`Alike.refines`).
-/

namespace Jvm

/-- The heap is in order and has grown, and the same methods run. -/
structure State.Evolves (s s' : State) : Prop where
  sound : s'.heap.Sound
  grows : s.heap.Grows s'.heap
  frames : s'.frames = s.frames

namespace State

variable {s s' s'' : State}

theorem Evolves.refl (hs : s.heap.Sound) : s.Evolves s := ⟨hs, .refl _, rfl⟩

theorem Evolves.trans (h : s.Evolves s') (h' : s'.Evolves s'') : s.Evolves s'' :=
  ⟨h'.sound, h.grows.trans h'.grows, h'.frames.trans h.frames⟩

end State

/-- The later state differs from the earlier one in the instructions that it has counted and in classes that are set up
without any code: with each of them the superclass is set up, too. -/
structure State.Precedes (d : ClassDictionary) (s t : State) : Prop where
  frames : t.frames = s.frames
  heap : t.heap = s.heap
  statics : t.statics = s.statics
  readings : t.readings = s.readings
  started : ∀ n ∈ s.started, n ∈ t.started
  idle : ∀ n ∈ t.started, n ∉ s.started → ∀ c, d.get? n = some c →
    c.setup? = none ∧ ∀ above, c.superName = some above → d.contains above = true → above ∈ t.started

/-- A class whose set-up begins in both states. -/
theorem State.Precedes.noted {d : ClassDictionary} {s t : State} (h : s.Precedes d t) (name : String) :
    State.Precedes d { s with started := name :: s.started } { t with started := name :: t.started } := by
  refine ⟨h.frames, h.heap, h.statics, h.readings, fun n hn => ?_, fun n hn hn' c hc => ?_⟩
  · rcases List.mem_cons.1 hn with rfl | hn
    · exact List.mem_cons_self
    · exact List.mem_cons_of_mem _ (h.started n hn)
  · have hnt : n ∈ t.started := by
      rcases List.mem_cons.1 hn with rfl | hn
      · exact absurd List.mem_cons_self hn'
      · exact hn
    obtain ⟨hsetup, habove⟩ := h.idle n hnt (fun hmem => hn' (List.mem_cons_of_mem _ hmem)) c hc
    exact ⟨hsetup, fun above hsuper hd => List.mem_cons_of_mem _ (habove above hsuper hd)⟩

namespace Exec

/-- The second action ends as the first one does, or at a limit. -/
def Follows {α : Type} (d : ClassDictionary) (a : α) (s' : State) (r : EStateM.Result Stop State α) : Prop :=
  (∃ t', r = .ok a t' ∧ s'.Precedes d t') ∨ ∃ e t', r = .error e t' ∧ e.faultKind = some .stepBudget

structure Refines {α : Type} (P : α → Prop) (x y : Exec α) : Prop where
  keeps : ∀ w s a s', s.heap.Sound → x w s = .ok a s' → P a ∧ s.Evolves s'
  follows : ∀ w s t a s', s.Precedes w.program t → s.heap.Sound → x w s = .ok a s' →
    Follows w.program a s' (y w t)

namespace Refines

variable {α β : Type} {P : α → Prop} {Q : β → Prop} {x y : Exec α}

theorem weaken {P' : α → Prop} (h : Refines P x y) (hP : ∀ a, P a → P' a) : Refines P' x y :=
  ⟨fun w s a s' hs hx => ⟨hP a (h.keeps w s a s' hs hx).1, (h.keeps w s a s' hs hx).2⟩, h.follows⟩

theorem any (h : Refines P x y) : Refines Any x y := h.weaken fun _ _ => trivial

theorem pure {a : α} (ha : P a) : Refines P (Pure.pure a) (Pure.pure a) := by
  refine ⟨fun w s a' s' hs hx => ?_, fun w s t a' s' ht hs hx => ?_⟩
  · cases hx
    exact ⟨ha, .refl hs⟩
  · cases hx
    exact .inl ⟨t, rfl, ht⟩

theorem value (a : α) : Refines Any (Pure.pure a) (Pure.pure a) := pure trivial

/-- An action that fails is refined by every action. -/
theorem throw (e : Stop) : Refines P (MonadExcept.throw e) y where
  keeps _ _ _ _ _ hx := nomatch hx
  follows _ _ _ _ _ _ _ hx := nomatch hx

theorem fail (f : Fault) : Refines P (Exec.fail f) y := throw _

theorem bind {f g : α → Exec β} (hxy : Refines P x y) (hfg : ∀ a, P a → Refines Q (f a) (g a)) :
    Refines Q (x >>= f) (y >>= g) := by
  refine ⟨fun w s b s' hs hx => ?_, fun w s t b s' ht hs hx => ?_⟩
  · obtain ⟨a, u, h1, h2⟩ := bind_ok hx
    obtain ⟨ha, hu⟩ := hxy.keeps w s a u hs h1
    obtain ⟨hb, hs'⟩ := (hfg a ha).keeps w u b s' hu.sound h2
    exact ⟨hb, hu.trans hs'⟩
  · obtain ⟨a, u, h1, h2⟩ := bind_ok hx
    obtain ⟨ha, hu⟩ := hxy.keeps w s a u hs h1
    rw [bind_apply]
    obtain ⟨t', h3, ht'⟩ | ⟨e, t', h3, he⟩ := hxy.follows w s t a u ht hs h1
    · rw [h3]
      exact (hfg a ha).follows w u t' b s' ht' hu.sound h2
    · rw [h3]
      exact .inr ⟨e, t', rfl, he⟩

theorem next {f g : α → Exec β} (hxy : Refines Any x y) (hfg : ∀ a, Refines Q (f a) (g a)) :
    Refines Q (x >>= f) (y >>= g) := hxy.bind fun a _ => hfg a

theorem ofOk {r : Except Fault α} (hr : ∀ a, r = .ok a → P a) : Refines P (liftM r : Exec α) (liftM r) := by
  cases r with
  | ok a => exact pure (hr a rfl)
  | error f => exact fail f

theorem ofExcept (r : Except Fault α) : Refines Any (liftM r : Exec α) (liftM r) :=
  ofOk fun _ _ => trivial

theorem read : Refines Any (MonadReader.read : Exec World) MonadReader.read := by
  refine ⟨fun w s a s' hs hx => ?_, fun w s t a s' ht hs hx => ?_⟩
  · cases hx
    exact ⟨trivial, .refl hs⟩
  · cases hx
    exact .inl ⟨t, rfl, ht⟩

/-- Looks at the methods that run, the heap and the static fields. -/
theorem get {f g : State → Exec β} (hfg : ∀ s : State, s.heap.Sound → Refines Q (f s) (g s))
    (hg : ∀ s t : State, t.frames = s.frames → t.heap = s.heap → t.statics = s.statics → g t = g s) :
    Refines Q (MonadState.get >>= f) (MonadState.get >>= g) := by
  refine ⟨fun w s b s' hs hx => (hfg s hs).keeps w s b s' hs hx, fun w s t b s' ht hs hx => ?_⟩
  change Follows w.program b s' (g t w t)
  rw [hg s t ht.frames ht.heap ht.statics]
  exact (hfg s hs).follows w s t b s' ht hs hx

/-- An action on the heap alone. -/
theorem ofHeap {f : Heap → Except Fault (α × Heap)}
    (hx : ∀ w s, x w s = match f s.heap with
      | .ok (a, heap) => .ok a { s with heap }
      | .error e => .error (.error (.emulation e)) s)
    (hf : ∀ h a h', h.Sound → f h = .ok (a, h') → P a ∧ h'.Sound ∧ h.Grows h') : Refines P x x := by
  have ok_of : ∀ {w s a s'}, x w s = .ok a s' → ∃ h', f s.heap = .ok (a, h') ∧ s' = { s with heap := h' } := by
    intro w s a s' h
    rw [hx] at h
    cases hfs : f s.heap with
    | error e => simp only [hfs] at h; cases h
    | ok p => simp only [hfs] at h; cases h; exact ⟨p.2, rfl, rfl⟩
  refine ⟨fun w s a s' hs h => ?_, fun w s t a s' ht hs h => ?_⟩
  · obtain ⟨h', h1, rfl⟩ := ok_of h
    obtain ⟨ha, hs', hg⟩ := hf s.heap a h' hs h1
    exact ⟨ha, hs', hg, rfl⟩
  · obtain ⟨h', h1, rfl⟩ := ok_of h
    refine .inl ⟨{ t with heap := h' }, ?_, ht.frames, rfl, ht.statics, ht.readings, ht.started, ht.idle⟩
    rw [hx, ht.heap, h1]

/-! ### The call stack, the meter and static fields -/

/-- The meter of the second action may have come to its end before. -/
theorem tick : Refines Any Exec.tick Exec.tick := by
  refine ⟨fun w s a s' hs h => ?_, fun w s t a s' ht hs h => ?_⟩
  · rw [tick_apply] at h
    split at h
    · cases h
    · cases h
      exact ⟨trivial, hs, .refl _, rfl⟩
  · rw [tick_apply] at h
    split at h
    · cases h
    · cases h
      rw [tick_apply]
      split
      · exact .inr ⟨_, _, rfl, rfl⟩
      · exact .inl ⟨_, rfl, ht.frames, ht.heap, ht.statics, ht.readings, ht.started, ht.idle⟩

theorem readClock : Refines Any Exec.readClock Exec.readClock := by
  refine ⟨fun w s a s' hs h => ?_, fun w s t a s' ht hs h => ?_⟩
  · cases h
    exact ⟨trivial, hs, .refl _, rfl⟩
  · cases h
    refine .inl ⟨{ t with readings := t.readings + 1 }, ?_, ht.frames, ht.heap, ht.statics, ?_, ht.started, ht.idle⟩
    · rw [readClock_apply, ht.readings]
    · rw [ht.readings]

theorem putStatic (owner name : String) (v : Value) :
    Refines Any (modifyThe State (·.putStatic owner name v)) (modifyThe State (·.putStatic owner name v)) := by
  refine ⟨fun w s a s' hs h => ?_, fun w s t a s' ht hs h => ?_⟩
  · cases h
    exact ⟨trivial, hs, .refl _, rfl⟩
  · cases h
    refine .inl ⟨t.putStatic owner name v, rfl, ht.frames, ht.heap, ?_, ht.readings, ht.started, ht.idle⟩
    simp only [State.putStatic, ht.statics]

theorem withFrame (owner name : String) (line : Int32) (h : Refines P x y) :
    Refines P (Exec.withFrame owner name line x) (Exec.withFrame owner name line y) := by
  -- a method that returns has been entered, and its frame is on top again in the end
  have ok_of : ∀ {w s a s'}, s.heap.Sound → Exec.withFrame owner name line x w s = .ok a s' →
      ¬ w.limits.callDepth ≤ s.frames.length ∧ ∃ u,
        x w { s with frames := CallFrame.ofMethod owner name line :: s.frames } = .ok a u ∧
        P a ∧ u.heap.Sound ∧ s.heap.Grows u.heap ∧
        u.frames = CallFrame.ofMethod owner name line :: s.frames ∧ s' = { u with frames := s.frames } := by
    intro w s a s' hs hx
    obtain ⟨u, u', f, hpush, hact, hpop⟩ := withFrame_ok hx
    rw [pushFrame_apply] at hpush
    split at hpush <;> cases hpush
    obtain ⟨ha, hu'⟩ :=
      h.keeps w { s with frames := CallFrame.ofMethod owner name line :: s.frames } a u' hs hact
    have hframes : u'.frames = CallFrame.ofMethod owner name line :: s.frames := hu'.frames
    rw [popFrame_apply, hframes] at hpop
    cases hpop
    exact ⟨‹_›, u', hact, ha, hu'.sound, hu'.grows, hframes, rfl⟩
  refine ⟨fun w s a s' hs hx => ?_, fun w s t a s' ht hs hx => ?_⟩
  · obtain ⟨-, u, -, ha, hu, hg, -, rfl⟩ := ok_of hs hx
    exact ⟨ha, hu, hg, rfl⟩
  · obtain ⟨hdepth, u, hact, -, -, -, hframes, rfl⟩ := ok_of hs hx
    rw [withFrame_apply, pushFrame_apply, ht.frames, if_neg hdepth]
    dsimp only
    have ht' : State.Precedes w.program { s with frames := CallFrame.ofMethod owner name line :: s.frames }
        { t with frames := CallFrame.ofMethod owner name line :: s.frames } :=
      ⟨rfl, ht.heap, ht.statics, ht.readings, ht.started, ht.idle⟩
    obtain ⟨v, hv, htv⟩ | ⟨e, v, hv, he⟩ := h.follows w _ _ a u ht' hs hact
    · rw [hv]
      dsimp only
      rw [popFrame_apply, htv.frames, hframes]
      exact .inl ⟨_, rfl, rfl, htv.heap, htv.statics, htv.readings, htv.started, htv.idle⟩
    · rw [hv]
      exact .inr ⟨e, _, rfl, he⟩

theorem findStatic (d : ClassDictionary) (m : MemberRef) : ∀ fuel owner,
    Refines Any (Step.findStatic d m fuel owner) (Step.findStatic d m fuel owner) := by
  intro fuel
  induction fuel with
  | zero => exact fun _ => throw _
  | succ fuel ih =>
    intro owner
    unfold Step.findStatic
    split
    · exact fail _
    · split
      · exact value _
      · exact ih _
      · exact fail _

end Refines

/-! ### Actions that are built alike -/

/-- Heaps are in order, and the calls of the one action are refined by those of the other. -/
def refined : Setting where
  sound := True
  reflects _ := True
  searches _ := True
  writes := True
  calls := Refines Any
  setUps := Refines Any

theorem fits_refined {h : Heap} : h.Fits refined.toPremises ↔ h.Sound := h.fits_iff trivial fun _ => trivial

namespace Alike

variable {α : Type} {P : α → Prop} {x y : Exec α}

theorem refines (h : Alike refined P x y) : Refines P x y := by
  induction h with
  | pure ha => exact .pure ha
  | failWith e => exact .throw _
  | bind _ _ ihx ihf => exact ihx.bind ihf
  | weaken _ hP ih => exact ih.weaken hP
  | world => exact Refines.read.weaken fun _ _ _ _ _ _ _ => ⟨trivial, fun _ _ _ _ _ _ => trivial⟩
  | get _ hg ih => exact .get (fun s hs => ih s (fits_refined.2 hs)) hg
  | ofHeap hx hf =>
    refine .ofHeap hx fun h a h' hs hfh => ?_
    obtain ⟨ha, hs', hg⟩ := hf h a h' (fits_refined.2 hs) hfh
    exact ⟨ha, fits_refined.1 hs', hg.grows⟩
  | clock => exact .readClock
  | putStatic => exact .putStatic _ _ _
  | resolveStatic => exact Refines.read.next fun _ => .findStatic _ _ _ _
  | call h => exact h
  | setUp h => exact h

end Alike

namespace Refines

variable {α : Type}

theorem look (f : Heap → Except Fault α) : Refines Any (Exec.readHeap f) (Exec.readHeap f) :=
  (Alike.look f).refines

theorem className (v : Value) : Refines Any (Exec.className v) (Exec.className v) := look _

theorem narrow (view : View α) (v : Value) : Refines Any (Exec.narrow view v) (Exec.narrow view v) := look _

theorem narrowArray (v : Value) :
    Refines ArrayObject.Sound (Exec.narrow View.array v) (Exec.narrow View.array v) :=
  (Alike.narrowArray v).refines.weaken fun _ ha => ha trivial

theorem allocateArray {a : ArrayObject} (ha : a.Sound) :
    Refines (·.isReferenceLike = true) (Exec.allocate (.array a)) (Exec.allocate (.array a)) :=
  (Alike.allocate (p := .array a) fun _ => ha).refines

theorem placeholder (className : String) :
    Refines (·.isReferenceLike = true) (Exec.placeholder className) (Exec.placeholder className) :=
  (Alike.placeholder className).refines

theorem modify {view : View α} (hv : view.Mutable) (v : Value) {f : α → α}
    (hf : ∀ a, (view.make a).Sound → (view.make (f a)).Sound) :
    Refines Any (Exec.modify view v f) (Exec.modify view v f) :=
  (Alike.modify hv (fun _ => trivial) v fun a ha => (Payload.fits_iff trivial (fun _ => trivial) _).2
    (hf a ((Payload.fits_iff trivial (fun _ => trivial) _).1 ha))).refines

theorem intern (text : Units) :
    Refines (·.isReferenceLike = true) (Exec.intern text) (Exec.intern text) := (Alike.intern text).refines

end Refines

end Exec

end Jvm
