import Jvm.Proofs.Machine.Actions
import Jvm.Proofs.Machine.Internal

/-!
# Orderly actions

`Exec.Orderly E n P x` says of an action that it is built from the steps that a machine offers, and that each
step is taken where it may be: objects are looked up by references that the heap has issued, no internal
fault is raised, a refused descriptor is the reason for no other failure than one that is known. `E` says
which of this is asked for (`Demands`), and what is relied on where the action calls a method or sets up a
class. Beyond that no step depends on how much the limits allow, other than by failing.

The heap has issued at least `n` references before the action, and `P k` holds of its result where it has
issued `k` afterwards. So the bound only goes up along an action, and what was issued stays issued.

The predicate is about one action, whereas `Exec.Alike` is about two that make different calls. Whatever is to
be shown of all natives and instructions needs one induction with a case for each constructor here.
-/

namespace Jvm

/-- What is asked of the objects that a run finds and of how it fails. -/
structure Demands where
  /-- References were issued, and no internal fault is raised. -/
  handles : Prop
  /-- Why reflection may refuse a descriptor. -/
  refusals : DescriptorError → Prop

namespace Demands

variable (E : Demands)

def Issues (n : Nat) (v : Value) : Prop := E.handles → v.Issued n

def ReadsMethod (descriptor : String) : Prop :=
  ∀ e, MethodDescriptor.parse descriptor = .error e → E.refusals e

def ReadsField (descriptor : String) : Prop := ∀ e, FieldType.parse descriptor = .error e → E.refusals e

/-- The descriptors in the program are read, or refused for a reason that is known. -/
structure Knows (w : World) : Prop where
  methods : ∀ name c, w.program.get? name = some c → ∀ m ∈ c.methods, E.ReadsMethod m.descriptor
  fields : ∀ name c, w.program.get? name = some c → ∀ f ∈ c.fields, E.ReadsField f.descriptor

/-- The run may end early that way. -/
def Admits : Stop → Prop
  | .outOfFuel => True
  | .error (.emulation f) => E.handles → f.isInternal = false
  | .error (.malformed (.descriptor e)) => E.refusals e
  | .error _ => False

end Demands

/-- The descriptors that objects of reflection hold are read, or refused for a reason that is known. -/
def Payload.Reads (E : Demands) : Payload → Prop
  | method m => E.ReadsMethod m.member.descriptor
  | field f => E.ReadsField f.descriptor
  | _ => True

/-- What is asked of an object where `n` references have been issued; of heaps and states likewise. -/
structure Payload.Meets (E : Demands) (n : Nat) (p : Payload) : Prop where
  issued : E.handles → p.Issued n
  reads : p.Reads E

structure Heap.Meets (E : Demands) (h : Heap) : Prop where
  issued : E.handles → h.Issued
  reads : h.Holds (Payload.Reads E)

structure State.Meets (E : Demands) (s : State) : Prop where
  issued : E.handles → s.Issued
  reads : s.heap.Holds (Payload.Reads E)

section

variable {E : Demands} {n k : Nat} {v : Value} {p : Payload} {h : Heap}

theorem Demands.Issues.mono (hv : E.Issues n v) (hk : n ≤ k) : E.Issues k v := fun hh => (hv hh).mono hk

theorem Payload.Meets.mono (hp : p.Meets E n) (hk : n ≤ k) : p.Meets E k :=
  ⟨fun hh => (hp.issued hh).mono hk, hp.reads⟩

theorem State.Meets.heap {s : State} (hs : s.Meets E) : s.heap.Meets E :=
  ⟨fun hh => (hs.issued hh).heap, hs.reads⟩

/-- A state holds the references of its heap and those in static fields, which stay. -/
theorem State.Meets.withHeap {s : State} (hs : s.Meets E) (hh : h.Meets E) (hsize : s.heap.size ≤ h.size) :
    State.Meets E { s with heap := h } :=
  ⟨fun hi => ⟨fun e he => ((hs.issued hi).statics e he).mono hsize, hh.issued hi⟩, hh.reads⟩

end

namespace Heap

variable {E : Demands} {h : Heap} {p : Payload} {v : Value}

theorem Meets.holds (hs : h.Meets E) : h.Holds (Payload.Meets E h.size) :=
  fun id p hp => ⟨fun hh => (hs.issued hh).contents id p hp, hs.reads id p hp⟩

theorem Meets.push (hs : h.Meets E) (className : String) {p : Option Payload}
    (hp : ∀ q, p = some q → q.Meets E h.size) : (h.push className p).2.Meets E :=
  ⟨fun hh => (hs.issued hh).push className fun q hq => (hp q hq).issued hh,
    hs.reads.push className fun q hq => (hp q hq).reads⟩

theorem Meets.pushInterned (hs : h.Meets E) (text : Units) : (h.pushInterned text).2.Meets E :=
  ⟨fun hh => (hs.issued hh).pushInterned text, hs.reads.push _ fun q hq => by cases hq; trivial⟩

theorem Meets.setPayload (hs : h.Meets E) (id : Nat) (hp : p.Meets E h.size) : (h.setPayload id p).Meets E :=
  ⟨fun hh => (hs.issued hh).setPayload id (hp.issued hh), hs.reads.setPayload id hp.reads⟩

theorem Meets.edit {α : Type} {view : View α} (hv : view.Mutable) (hs : h.Meets E) (id : Nat) {f : α → α}
    (hf : ∀ a, (view.make a).Meets E h.size → (view.make (f a)).Meets E h.size) : (h.edit view id f).Meets E := by
  have hholds : (h.edit view id f).Holds (Payload.Meets E h.size) := hs.holds.edit hv id hf
  refine ⟨fun hh => ⟨?_, ?_⟩, hholds.imp fun _ hp => hp.reads⟩
  · rw [size_edit]
    exact hholds.imp fun _ hp => hp.issued hh
  · rw [size_edit]
    exact (hs.issued hh).interned

def withLimit (h : Heap) (l : Nat) : Heap := { h with limit := l }

/-- An action on the heap alone that is orderly: it keeps what is asked, takes no object away, and a higher limit
only makes it go on where it would have failed for want of room. -/
structure Orderly (E : Demands) (n : Nat) {α : Type} (P : Nat → α → Prop) (f : Heap → Except Fault (α × Heap)) :
    Prop where
  ok : ∀ h a h', h.Meets E → n ≤ h.size → f h = .ok (a, h') → P h'.size a ∧ h'.Meets E ∧ h.size ≤ h'.size
  error : ∀ h, n ≤ h.size → E.handles → Mild (f h)
  limit : ∀ h l, h.limit ≤ l → match f h with
    | .ok (a, h') => h'.limit = h.limit ∧ f (h.withLimit l) = .ok (a, h'.withLimit l)
    | .error e => e.kind = .stepBudget ∨ f (h.withLimit l) = .error e

/-- A new object is only refused for want of room. -/
theorem checkRoom_limit {α : Type} {g : Heap → α × Heap} {l : Nat} (hl : h.limit ≤ l)
    (hg : (g h).2.limit = h.limit) (hg' : g (h.withLimit l) = ((g h).1, (g h).2.withLimit l)) :
    match h.checkRoom.map fun _ => g h with
    | .ok (a, h') => h'.limit = h.limit ∧
        ((h.withLimit l).checkRoom.map fun _ => g (h.withLimit l)) = .ok (a, h'.withLimit l)
    | .error e => e.kind = .stepBudget ∨
        ((h.withLimit l).checkRoom.map fun _ => g (h.withLimit l)) = .error e := by
  by_cases hroom : h.limit ≤ h.size ∨ 0x100000000 ≤ h.size
  · rw [checkRoom, if_pos hroom]
    exact .inl rfl
  · have hroom' : ¬ ((h.withLimit l).limit ≤ (h.withLimit l).size ∨ 0x100000000 ≤ (h.withLimit l).size) := by
      have hlimit : (h.withLimit l).limit = l := rfl
      have hsize : (h.withLimit l).size = h.size := rfl
      omega
    rw [checkRoom, if_neg hroom, checkRoom, if_neg hroom', hg']
    exact ⟨hg, rfl⟩

end Heap

/-- What actions rely on. -/
structure Surroundings extends Demands where
  /-- Calls that are made where so many references have been issued. -/
  calls : Nat → Exec Value → Prop
  setUps : Exec Unit → Prop

namespace Exec

/-- Nothing is known of the result. -/
abbrev Anything {α : Type} : Nat → α → Prop := fun _ _ => True

inductive Orderly (E : Surroundings) : {α : Type} → Nat → (Nat → α → Prop) → Exec α → Prop
  | pure {α : Type} {n : Nat} {P : Nat → α → Prop} {a : α} (ha : ∀ k, n ≤ k → P k a) :
      Orderly E n P (Pure.pure a)
  | fail {α : Type} {n : Nat} {P : Nat → α → Prop} {f : Fault} (hf : E.handles → f.isInternal = false) :
      Orderly E n P (Exec.fail f)
  | refuse {α : Type} {n : Nat} {P : Nat → α → Prop} {e : DescriptorError} (he : E.refusals e) :
      Orderly E n P (Exec.failWith (.malformed (.descriptor e)))
  | bind {α β : Type} {n : Nat} {P : Nat → α → Prop} {Q : Nat → β → Prop} {x : Exec α} {f : α → Exec β}
      (hx : Orderly E n P x) (hf : ∀ k a, n ≤ k → P k a → Orderly E k Q (f a)) : Orderly E n Q (x >>= f)
  | weaken {α : Type} {n : Nat} {P P' : Nat → α → Prop} {x : Exec α} (h : Orderly E n P x)
      (hP : ∀ k a, n ≤ k → P k a → P' k a) : Orderly E n P' x
  | raise {α : Type} {n k : Nat} {P : Nat → α → Prop} {x : Exec α} (h : Orderly E n P x) (hk : n ≤ k) :
      Orderly E k P x
  /-- Looks at the world, apart from the limits. -/
  | world {β : Type} {n : Nat} {Q : Nat → β → Prop} {f : World → Exec β}
      (hf : ∀ w, E.Knows w → Orderly E n Q (f w)) (heq : ∀ w limits, f { w with limits } = f w) :
      Orderly E n Q (MonadReader.read >>= f)
  /-- Looks at the methods that run, the objects and the static fields. -/
  | get {β : Type} {n : Nat} {Q : Nat → β → Prop} {f : State → Exec β}
      (hf : ∀ s : State, s.Meets E.toDemands → n ≤ s.heap.size → Orderly E s.heap.size Q (f s))
      (heq : ∀ (s t : State) l, t.frames = s.frames → t.statics = s.statics → t.heap = s.heap.withLimit l → f t = f s) :
      Orderly E n Q (MonadState.get >>= f)
  /-- Looks at the methods that run, if one more may. -/
  | framed {β : Type} {n : Nat} {Q : Nat → β → Prop} {f : List CallFrame → Exec β}
      (hf : ∀ frames, Orderly E n Q (f frames)) :
      Orderly E n Q (do
        let w ← MonadReader.read
        let s ← MonadState.get
        if w.limits.callDepth ≤ s.frames.length then
          Exec.fail (.callDepth (s.frames.length + 1) w.limits.callDepth)
        else f s.frames)
  | ofHeap {α : Type} {n : Nat} {P : Nat → α → Prop} {x : Exec α} {f : Heap → Except Fault (α × Heap)}
      (hx : x.OnHeap f) (hf : Heap.Orderly E.toDemands n P f) : Orderly E n P x
  | clock {n : Nat} : Orderly E n Anything Exec.readClock
  | putStatic {n : Nat} (owner name : String) {v : Value} (hv : E.Issues n v) :
      Orderly E n Anything (modifyThe State (·.putStatic owner name v))
  | resolveStatic {n : Nat} (f : MemberRef) : Orderly E n Anything (Step.resolveStatic f)
  | call {n : Nat} {x : Exec Value} (h : E.calls n x) : Orderly E n E.Issues x
  | setUp {n : Nat} {x : Exec Unit} (h : E.setUps x) : Orderly E n Anything x

theorem framed_apply {α : Type} (f : List CallFrame → Exec α) (w : World) (s : State) :
    (do
      let w ← MonadReader.read
      let s ← MonadState.get
      if w.limits.callDepth ≤ s.frames.length then
        Exec.fail (.callDepth (s.frames.length + 1) w.limits.callDepth)
      else f s.frames : Exec α) w s =
    if w.limits.callDepth ≤ s.frames.length then
      .error (.error (.emulation (.callDepth (s.frames.length + 1) w.limits.callDepth))) s
    else f s.frames w s := by
  rw [bind_apply, read_apply]
  dsimp only
  rw [bind_apply, get_apply]
  dsimp only
  split <;> rfl

namespace Orderly

variable {E : Surroundings} {α β : Type} {n k : Nat} {P : Nat → α → Prop} {Q : Nat → β → Prop} {x : Exec α}

theorem any (h : Orderly E n P x) : Orderly E n Anything x := h.weaken fun _ _ _ _ => trivial

theorem value (a : α) : Orderly E n Anything (Pure.pure a) := pure fun _ _ => trivial

theorem result {v : Value} (hv : E.Issues n v) : Orderly E n E.Issues (Pure.pure v) :=
  pure fun _ hk => hv.mono hk

theorem scalar {v : Value} (hv : v.ref? = none) : Orderly E n E.Issues (Pure.pure v) :=
  result fun _ => Value.issued_of_ref? hv

theorem mild {f : Fault} (hf : f.isInternal = false) : Orderly E n P (Exec.fail f) := fail fun _ => hf

/-- What comes next where nothing needs to be known of the result. -/
theorem next {f : α → Exec β} (hx : Orderly E n P x) (hf : ∀ a, Orderly E n Q (f a)) :
    Orderly E n Q (x >>= f) := hx.bind fun _ a hk _ => (hf a).raise hk

theorem map (h : Orderly E n P x) {f : α → β} (hf : ∀ k a, n ≤ k → P k a → ∀ j, k ≤ j → Q j (f a)) :
    Orderly E n Q (f <$> x) :=
  h.bind fun k a hk ha => pure fun j hj => hf k a hk ha j hj

theorem mapM {γ : Type} {f : γ → Exec α} {cs : List γ} (hP : ∀ k j a, k ≤ j → P k a → P j a)
    (hf : ∀ c ∈ cs, Orderly E n P (f c)) : Orderly E n (fun k as => ∀ a ∈ as, P k a) (cs.mapM f) := by
  induction cs with
  | nil => exact pure fun _ _ _ h => by cases h
  | cons c cs ih =>
    obtain ⟨hc, hcs⟩ := List.forall_mem_cons.1 hf
    rw [List.mapM_cons]
    -- the results that are there already must hold after the rest, too, so `P` goes up with the bound
    refine bind hc fun k a hk ha => bind ((ih hcs).raise hk) fun j as hj has => pure fun i hi b hb => ?_
    rcases List.mem_cons.1 hb with rfl | hb
    · exact hP k i _ (Nat.le_trans hj hi) ha
    · exact hP j i b hi (has b hb)

theorem ofOk {r : Except Fault α} (hr : E.handles → Mild r) (hP : ∀ a, r = .ok a → ∀ k, n ≤ k → P k a) :
    Orderly E n P (liftM r : Exec α) := by
  cases r with
  | ok a => exact pure (hP a rfl)
  | error f => exact fail fun hh => hr hh f rfl

/-- What comes next where a computation has a result; it takes nothing of the state. -/
theorem after {r : Except Fault α} {f : α → Exec β} (hr : E.handles → Mild r)
    (hf : ∀ a, r = .ok a → Orderly E n Q (f a)) : Orderly E n Q ((liftM r : Exec α) >>= f) := by
  cases r with
  | ok a => exact hf a rfl
  | error e => exact fail fun hh => hr hh e rfl

theorem ofMild {r : Except Fault α} (hr : Mild r) : Orderly E n Anything (liftM r : Exec α) :=
  ofOk (fun _ => hr) fun _ _ _ _ => trivial

/-! ### The heap -/

theorem readHeap {f : Heap → Except Fault α}
    (hok : ∀ h a, h.Meets E.toDemands → n ≤ h.size → f h = .ok a → P h.size a)
    (herror : ∀ h, E.handles → n ≤ h.size → Mild (f h)) (hlimit : ∀ h l, f (h.withLimit l) = f h) :
    Orderly E n P (Exec.readHeap f) := by
  refine ofHeap (onHeap_readHeap f) ⟨fun h a h' hs hn hx => ?_, fun h hn hh => (herror h hh hn).map _,
    fun h l hl => ?_⟩
  · obtain ⟨ha, rfl⟩ := Heap.looking_ok hx
    exact ⟨hok h' a hs hn ha, hs, Nat.le_refl _⟩
  · simp only [Heap.looking, hlimit h l]
    cases f h with
    | ok a => exact ⟨rfl, rfl⟩
    | error e => exact .inr rfl

theorem look {f : Heap → Except Fault α} (hf : ∀ h, E.handles → n ≤ h.size → Mild (f h))
    (hlimit : ∀ h l, f (h.withLimit l) = f h) : Orderly E n Anything (Exec.readHeap f) :=
  readHeap (fun _ _ _ _ _ => trivial) hf hlimit

variable {v : Value}

theorem className (hv : E.Issues n v) : Orderly E n Anything (Exec.className v) :=
  look (fun _ hh hn => Heap.mild_className ((hv hh).mono hn)) fun _ _ => rfl

theorem narrowMeeting {view : View α}
    (hview : ∀ k p, p.Meets E.toDemands k → ∀ a, view.read? p = some a → P k a) (hv : E.Issues n v) :
    Orderly E n P (Exec.narrow view v) :=
  readHeap (fun h _ hs _ ha => hs.holds.narrow (hview h.size) ha)
    (fun _ hh hn => Heap.mild_narrow view ((hv hh).mono hn)) fun _ _ => rfl

theorem narrow (view : View α) (hv : E.Issues n v) : Orderly E n Anything (Exec.narrow view v) :=
  narrowMeeting (fun _ _ _ _ _ => trivial) hv

theorem narrowArray (hv : E.Issues n v) :
    Orderly E n (fun k a => E.handles → a.Issued k) (Exec.narrow View.array v) :=
  narrowMeeting (fun _ p hp a ha hh => by cases p <;> cases ha; exact hp.issued hh) hv

theorem narrowRecord (hv : E.Issues n v) :
    Orderly E n (fun k fs => ∀ f ∈ fs, E.Issues k f.2) (Exec.narrow View.record v) :=
  narrowMeeting (fun _ p hp a ha f hf hh => by cases p <;> cases ha; exact hp.issued hh f hf) hv

theorem make (className : String) {p : Option Payload} (hp : ∀ q, p = some q → q.Meets E.toDemands n) :
    Orderly E n E.Issues (Exec.make className p) := by
  refine ofHeap (onHeap_make className p) ⟨fun h a h' hs hn hx => ?_, fun h _ _ => h.mild_checkRoom.map _,
    fun h l hl => Heap.checkRoom_limit (g := fun h => h.push className p) hl rfl rfl⟩
  obtain ⟨-, rfl, rfl⟩ := Heap.making_ok hx
  exact ⟨fun _ => by simp, hs.push className fun q hq => (hp q hq).mono hn, by simp⟩

theorem allocateAs (className : String) {p : Payload} (hp : p.Meets E.toDemands n) :
    Orderly E n E.Issues (Exec.allocateAs className p) := make className fun q hq => by cases hq; exact hp

theorem allocate {p : Payload} (hp : p.Meets E.toDemands n) : Orderly E n E.Issues (Exec.allocate p) :=
  allocateAs _ hp

theorem newString (text : Units) : Orderly E n E.Issues (Exec.newString text) := allocate ⟨fun _ => trivial, trivial⟩

theorem placeholder (className : String) : Orderly E n E.Issues (Exec.placeholder className) :=
  make className fun _ hq => by cases hq

theorem construct (hv : E.Issues n v) (expected : String) {p : Payload} (hp : p.Meets E.toDemands n) :
    Orderly E n Anything (Exec.construct v expected p) := by
  refine ofHeap (onHeap_construct v expected p) ⟨fun h a h' hs hn hx => ?_,
    fun h hn hh => (Heap.mild_unconstructed ((hv hh).mono hn) expected).map _, fun h l _ => ?_⟩
  · obtain ⟨id, -, rfl⟩ := Heap.constructing_ok hx
    exact ⟨trivial, hs.setPayload id (hp.mono hn), by simp⟩
  · have hsame : (h.withLimit l).unconstructed v expected = h.unconstructed v expected := rfl
    simp only [Heap.constructing, hsame]
    cases h.unconstructed v expected with
    | ok id => exact ⟨rfl, rfl⟩
    | error e => exact .inr rfl

theorem modify {view : View α} (hv : view.Mutable) (hi : E.Issues n v) {f : α → α}
    (hf : ∀ k a, n ≤ k → (view.make a).Meets E.toDemands k → (view.make (f a)).Meets E.toDemands k) :
    Orderly E n Anything (Exec.modify view v f) := by
  refine ofHeap (onHeap_modify view v f) ⟨fun h a h' hs hn hx => ?_, fun h hn hh => ?_, fun h l _ => ?_⟩
  · obtain ⟨id, rfl⟩ := Heap.editing_ok hx
    exact ⟨trivial, hs.edit hv id (hf _ · hn), by simp⟩
  · exact (Heap.mild_narrow view ((hi hh).mono hn)).bind fun _ _ => (Heap.mild_idOf v).map _
  · have hsame : (h.withLimit l).narrow view v = h.narrow view v := rfl
    simp only [Heap.editing, hsame]
    cases h.narrow view v with
    | error e => exact .inr rfl
    | ok a =>
      cases Heap.idOf v with
      | error e => exact .inr rfl
      | ok id => exact ⟨rfl, rfl⟩

theorem intern (text : Units) : Orderly E n E.Issues (Exec.intern text) := by
  refine ofHeap (onHeap_intern text) ⟨fun h a h' hs hn hx => ?_, fun h _ _ => ?_, fun h l hl => ?_⟩
  · obtain ⟨id, hid, rfl, rfl⟩ | ⟨-, -, rfl, rfl⟩ := Heap.interning_ok hx
    · exact ⟨fun hh => Value.issued_ref.2 ((hs.issued hh).interned? hid), hs, Nat.le_refl _⟩
    · exact ⟨fun _ => by simp, hs.pushInterned text, by simp⟩
  · rw [Heap.interning]
    cases h.interned? text with
    | some id => exact .ok _
    | none => exact h.mild_checkRoom.map _
  · have hsame : (h.withLimit l).interned? text = h.interned? text := rfl
    simp only [Heap.interning, hsame]
    cases h.interned? text with
    | some id => exact ⟨rfl, rfl⟩
    | none => exact Heap.checkRoom_limit (g := fun h => h.pushInterned text) hl rfl rfl

end Orderly

end Exec

end Jvm
