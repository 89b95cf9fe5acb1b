import Jvm.Proofs.Machine.Actions
import Jvm.Proofs.Machine.Heap

/-!
# What is left after a failure

A state spares another (`State.Spares`) if all objects of the earlier one are there with the class and the
contents that they had, and frames, fields, set-ups and steps are the same; new objects and readings of the
clock are allowed. `Exec.Spares` says this of the states in which an action fails.

The obvious statement is not closed under sequence: a first action that succeeds may have changed an object
before the second fails. So the predicate has a parameter: `Spares True x` also speaks of the state in which
`x` succeeds, and holds of what only reads or makes objects; `Spares False x` holds besides of an action that
changes an object, as long as nothing that may fail comes behind it (`Spares.bind`, `Spares.then_pure`).
-/

namespace Jvm

/-- All objects are as they were, and so is all else but how often the clock was read. -/
structure State.Spares (s t : State) : Prop where
  frames : t.frames = s.frames
  statics : t.statics = s.statics
  started : t.started = s.started
  steps : t.steps = s.steps
  objects : ∀ (id : Nat) (o : HeapObject), s.heap.objects[id]? = some o → t.heap.objects[id]? = some o

namespace State.Spares

variable {s t u : State}

theorem refl (s : State) : s.Spares s := ⟨rfl, rfl, rfl, rfl, fun _ _ ho => ho⟩

theorem trans (h : s.Spares t) (h' : t.Spares u) : s.Spares u :=
  ⟨h'.frames.trans h.frames, h'.statics.trans h.statics, h'.started.trans h.started, h'.steps.trans h.steps,
    fun id o ho => h'.objects id o (h.objects id o ho)⟩

theorem push (s : State) (className : String) (p : Option Payload) :
    s.Spares { s with heap := (s.heap.push className p).2 } := by
  refine ⟨rfl, rfl, rfl, rfl, fun id o ho => ?_⟩
  change (s.heap.objects.push ⟨className, p⟩)[id]? = some o
  have hid : id < s.heap.objects.size := (Array.getElem?_eq_some_iff.1 ho).1
  rw [Array.getElem?_push, if_neg (Nat.ne_of_lt hid), ho]

theorem pushInterned (s : State) (text : Units) : s.Spares { s with heap := (s.heap.pushInterned text).2 } := by
  obtain ⟨-, -, -, -, hobjects⟩ := push s "java/lang/String" (some (.string text))
  exact ⟨rfl, rfl, rfl, rfl, hobjects⟩

end State.Spares

theorem Call.this_eq {c : Call} {v : Value} (h : c.receiver = some v) : c.this = .ok v := by rw [Call.this, h]

/-! ### Contents that are found and changed -/

namespace Heap

variable {α β : Type} {view : View α} {h : Heap} {v : Value} {a : α}

theorem contents?_setPayload_self {id : Nat} {p : Payload} (hp : h.contents? id = some p) (q : Payload) :
    (h.setPayload id q).contents? id = some q := by
  obtain ⟨o, ho, -⟩ := Option.bind_eq_some_iff.1 hp
  rw [contents?_setPayload, if_pos ⟨rfl, (Array.getElem?_eq_some_iff.1 ho).1⟩]

/-- A change of other contents leaves these where they are. -/
theorem narrow_edit {other : View β} (hother : ∀ p a, view.read? p = some a → other.read? p = none)
    (ha : h.narrow view v = .ok a) (id : Nat) (f : β → β) : (h.edit other id f).narrow view v = .ok a := by
  obtain ⟨n, p, hv, hn, hr⟩ := narrow_eq_ok.1 ha
  refine narrow_eq_ok.2 ⟨n, p, hv, ?_, hr⟩
  rw [contents?_edit, hn, Option.map_some, View.edited, hother p a hr]
  exact ite_self _

/-- Contents that are known are changed by being replaced. -/
theorem edit_eq_setPayload {id : Nat} {p : Payload} (hp : h.contents? id = some p) (hr : view.read? p = some a)
    (f : α → α) : h.edit view id f = h.setPayload id (view.make (f a)) := by
  refine congrArg (fun objects => { h with objects }) (Array.ext_getElem? fun n => ?_)
  rw [Array.getElem?_modify, Array.getElem?_modify]
  split
  · rename_i hn
    subst hn
    cases ho : h.objects[id]? with
    | none => rfl
    | some o =>
      rw [contents?, ho] at hp
      have hpayload : o.payload = some p := hp
      rw [Option.map_some, Option.map_some, hpayload, Option.map_some, View.edited, hr]
  · rfl

end Heap

namespace Exec

variable {α β γ : Type} {whole : Prop} {x : Exec α} {w : World} {s t : State} {e : Stop}

theorem modify_ok {view : View α} {v : Value} {f : α → α} {u : Unit} (h : modify view v f w s = .ok u t) :
    ∃ id a, v = .ref id ∧ s.heap.narrow view v = .ok a ∧ t = { s with heap := s.heap.edit view id f } := by
  rw [onHeap_modify, Heap.editing] at h
  cases ha : s.heap.narrow view v with
  | error => rw [ha] at h; cases h
  | ok a =>
    obtain ⟨id, -, rfl, -, -⟩ := Heap.narrow_eq_ok.1 ha
    rw [ha] at h
    cases h
    exact ⟨id, a, rfl, rfl, rfl⟩

/-- Contents of the right kind can be changed. -/
theorem modify_of_narrow {view : View α} {v : Value} {a : α} (h : s.heap.narrow view v = .ok a) (f : α → α) :
    ∃ t, modify view v f w s = .ok () t := by
  obtain ⟨id, -, rfl, -, -⟩ := Heap.narrow_eq_ok.1 h
  rw [onHeap_modify, Heap.editing, h]
  exact ⟨_, rfl⟩

/-- Contents that are known are replaced. -/
theorem modify_apply {view : View α} {id : Nat} {p : Payload} {a : α} (hp : s.heap.contents? id = some p)
    (hr : view.read? p = some a) (f : α → α) (w : World) :
    modify view (.ref id) f w s = .ok () { s with heap := s.heap.setPayload id (view.make (f a)) } := by
  rw [onHeap_modify, Heap.editing, Heap.narrow_eq_ok.2 ⟨id, p, rfl, hp, hr⟩, ← Heap.edit_eq_setPayload hp hr]
  rfl

/-- After a change of contents the action goes on with the new ones in their place. -/
theorem modify_bind_error {view : View α} (hview : view.Mutable) {v : Value} {f : α → α} {g : Unit → Exec β}
    (h : (modify view v f >>= g) w s = .error e t) :
    t = s ∨ ∃ id a, v = .ref id ∧ s.heap.contents? id = some (view.make a) ∧ s.heap.narrow view v = .ok a ∧
      g () w { s with heap := s.heap.setPayload id (view.make (f a)) } = .error e t := by
  obtain h | ⟨_, u, hmodify, h⟩ := bind_error h
  · rw [onHeap_modify] at h
    cases he : Heap.editing view v f s.heap with
    | error => rw [he] at h; cases h; exact .inl rfl
    | ok p => rw [he] at h; cases h
  · obtain ⟨id, a, rfl, ha, rfl⟩ := modify_ok hmodify
    obtain ⟨_, p, hid, hp, hr⟩ := Heap.narrow_eq_ok.1 ha
    cases hid
    rw [Heap.edit_eq_setPayload hp hr] at h
    exact .inr ⟨id, a, rfl, by rw [hp, hview.make_read p a hr], ha, h⟩

theorem ofExcept_bind_error {r : Except Fault α} {f : α → Exec β}
    (h : ((liftM r : Exec α) >>= f) w s = .error e t) : t = s ∨ ∃ a, r = .ok a ∧ f a w s = .error e t := by
  cases r with
  | ok a => exact .inr ⟨a, rfl, h⟩
  | error => cases h; exact .inl rfl

theorem narrow_bind_error {view : View α} {v : Value} {f : α → Exec β}
    (h : (narrow view v >>= f) w s = .error e t) :
    t = s ∨ ∃ a, s.heap.narrow view v = .ok a ∧ f a w s = .error e t := by
  rw [bind_apply, narrow, readHeap_apply] at h
  cases ha : s.heap.narrow view v with
  | ok a => rw [ha] at h; exact .inr ⟨a, rfl, h⟩
  | error => rw [ha] at h; cases h; exact .inl rfl

/-- There is no room for another object. -/
theorem allocate_error {p : Payload} (h : allocate p w s = .error e t) :
    t = s ∧ e = .error (.emulation (.heapLimit s.heap.limit)) := by
  have hx := onHeap_make p.className (some p) w s
  change make p.className (some p) w s = .error e t at h
  rw [h] at hx
  cases hm : Heap.making p.className (some p) s.heap with
  | ok => rw [hm] at hx; cases hx
  | error f =>
    rw [hm] at hx
    cases hx
    exact ⟨rfl, by rw [Heap.making_error hm]⟩

/-- A failure spares the state; where `whole` holds, success does so, too. -/
def Spares (whole : Prop) (x : Exec α) : Prop :=
  ∀ w s, match x w s with
    | .ok _ t => whole → s.Spares t
    | .error _ t => s.Spares t

namespace Spares

theorem of_ok {a : α} (h : Spares True x) (hx : x w s = .ok a t) : s.Spares t := by
  have hs := h w s
  rw [hx] at hs
  exact hs trivial

theorem of_error (h : Spares whole x) (hx : x w s = .error e t) : s.Spares t := by
  have hs := h w s
  rw [hx] at hs
  exact hs

theorem of_forall_error (h : ∀ w s e t, x w s = .error e t → s.Spares t) : Spares False x := by
  intro w s
  cases hx : x w s with
  | ok => exact False.elim
  | error e t => exact h w s e t hx

theorem pure (a : α) : Spares whole (Pure.pure a) := fun _ s _ => .refl s

theorem failWith (e : Error) : Spares whole (Exec.failWith e : Exec α) := fun _ s => .refl s

theorem fail (f : Fault) : Spares whole (Exec.fail f : Exec α) := failWith _

theorem ofExcept (r : Except Fault α) : Spares whole (liftM r : Exec α) := by
  cases r with
  | ok a => exact pure a
  | error f => exact fail f

theorem read : Spares whole (MonadReader.read : Exec World) := fun _ s _ => .refl s

theorem get : Spares whole (MonadState.get : Exec State) := fun _ s _ => .refl s

theorem readClock : Spares whole Exec.readClock := fun _ _ _ => ⟨rfl, rfl, rfl, rfl, fun _ _ ho => ho⟩

theorem bind {f : α → Exec β} (hx : Spares True x) (hf : ∀ a, Spares whole (f a)) : Spares whole (x >>= f) := by
  intro w s
  rw [bind_apply]
  cases h : x w s with
  | error e t => exact hx.of_error h
  | ok a t =>
    have hs := hx.of_ok h
    have ht := hf a w t
    dsimp only
    cases h' : f a w t with
    | error e u => rw [h'] at ht; exact hs.trans ht
    | ok b u => rw [h'] at ht; exact fun hw => hs.trans (ht hw)

/-- What cannot fail may stand behind a change. -/
theorem then_pure (hx : Spares whole x) (f : α → β) : Spares whole (x >>= fun a => Pure.pure (f a)) := by
  intro w s
  have hs := hx w s
  rw [bind_apply]
  cases h : x w s with
  | error e t => rw [h] at hs; exact hs
  | ok a t => rw [h] at hs; exact hs

theorem map (hx : Spares whole x) (f : α → β) : Spares whole (f <$> x) := by
  rw [map_eq_pure_bind]
  exact hx.then_pure f

theorem mapM {f : γ → Exec β} (hf : ∀ c, Spares True (f c)) (cs : List γ) : Spares True (cs.mapM f) := by
  induction cs with
  | nil => exact pure []
  | cons c cs ih =>
    rw [List.mapM_cons]
    exact (hf c).bind fun b => ih.bind fun bs => pure (b :: bs)

theorem of_onHeap {f : Heap → Except Fault (α × Heap)} (hx : OnHeap x f)
    (hf : whole → ∀ (s : State) a heap, f s.heap = .ok (a, heap) → s.Spares { s with heap }) : Spares whole x := by
  intro w s
  rw [hx]
  cases h : f s.heap with
  | error e => exact .refl s
  | ok p => exact fun hw => hf hw s p.1 p.2 h

theorem look (f : Heap → Except Fault α) : Spares whole (readHeap f) :=
  of_onHeap (onHeap_readHeap f) fun _ s _ _ h => by
    obtain ⟨-, rfl⟩ := Heap.looking_ok h
    exact .refl s

theorem narrow (view : View α) (v : Value) : Spares whole (Exec.narrow view v) := look _

theorem className (v : Value) : Spares whole (Exec.className v) := look _

theorem make (name : String) (p : Option Payload) : Spares whole (Exec.make name p) :=
  of_onHeap (onHeap_make name p) fun _ s _ _ h => by
    obtain ⟨-, -, rfl⟩ := Heap.making_ok h
    exact .push s name p

theorem allocateAs (name : String) (p : Payload) : Spares whole (Exec.allocateAs name p) := make name (some p)

theorem allocate (p : Payload) : Spares whole (Exec.allocate p) := make _ _

theorem newString (text : Units) : Spares whole (Exec.newString text) := allocate _

theorem intern (text : Units) : Spares whole (Exec.intern text) :=
  of_onHeap (onHeap_intern text) fun _ s _ _ h => by
    obtain ⟨_, -, -, rfl⟩ | ⟨-, -, -, rfl⟩ := Heap.interning_ok h
    · exact .refl s
    · exact .pushInterned s text

theorem modify (view : View α) (v : Value) (f : α → α) : Spares False (Exec.modify view v f) :=
  of_onHeap (onHeap_modify view v f) False.elim

theorem construct (v : Value) (expected : String) (p : Payload) : Spares False (Exec.construct v expected p) :=
  of_onHeap (onHeap_construct v expected p) False.elim

end Spares

end Exec

end Jvm
