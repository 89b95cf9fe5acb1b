import Jvm.Proofs.Machine.Actions
import Jvm.Proofs.Machine.Alterations

/-!
# How actions are built

`Exec.Alike E P x y` says that two actions are put together in the same way from the actions that a machine
offers: looking at the world and the state, reading the clock, changing the heap, storing into static fields
and searching for them. They differ at most in the calls that they make, where `E` says which may stand for
which. `P` holds of their results.

No such action looks at the meter or at which classes are set up. So what is to be shown of all native
methods and of all instructions, whatever it is, needs one induction on `Alike` with a case for each
constructor; that the methods and the instructions are built this way is shown once.

`E` also says what is known of objects and methods (`Premises`): arrays of references are in order, if that is
asked for, objects stand for methods of a certain kind, and so do the methods of the program load and store
static fields. The heap changes by alterations only (`Heap.Leads`), and whether fields are written to, of
objects or static ones, is for `E` to say.
-/

namespace Jvm

/-- The static field that an instruction loads or stores. -/
def Instruction.staticField? (i : Instruction) : Option MemberRef :=
  match i.opcode with
  | .getStatic | .putStatic => i.member?
  | _ => none

theorem Instruction.staticField?_getStatic {i : Instruction} (h : i.opcode = .getStatic) :
    i.staticField? = i.member? := by rw [staticField?, h]

theorem Instruction.staticField?_putStatic {i : Instruction} (h : i.opcode = .putStatic) :
    i.staticField? = i.member? := by rw [staticField?, h]

/-- The instruction writes to a field. -/
def Instruction.Writes (i : Instruction) : Prop := i.opcode = .putStatic ∨ i.opcode = .putField

theorem Instruction.writes_putStatic {i : Instruction} (h : i.opcode = .putStatic) : i.Writes := .inl h

theorem Instruction.writes_putField {i : Instruction} (h : i.opcode = .putField) : i.Writes := .inr h

/-- The method loads and stores only such static fields. -/
def Method.Searches (fields : MemberRef → Prop) (m : Method) : Prop :=
  ∀ b, m.body = some b → ∀ i ∈ b.instructions, ∀ f, i.staticField? = some f → fields f

/-- What is known of objects and of the methods of the program. -/
structure Premises where
  /-- Heaps are in order. -/
  sound : Prop
  /-- The methods that objects stand for. -/
  reflects : MemberRef → Prop
  /-- The static fields that methods load and store. -/
  searches : MemberRef → Prop
  /-- Fields may be written to. -/
  writes : Prop

/-- The program is one of which this is known. -/
def Premises.Knows (K : Premises) (w : World) : Prop :=
  ∀ owner c, w.program.get? owner = some c → ∀ m ∈ c.methods,
    K.reflects ⟨owner, m.name, m.descriptor⟩ ∧ m.Searches K.searches

/-- What actions are built upon. -/
structure Setting extends Premises where
  /-- Calls that are made for each other. -/
  calls : Exec Value → Exec Value → Prop
  /-- Set-ups of classes that are made for each other. -/
  setUps : Exec Unit → Exec Unit → Prop

variable {K : Premises}

/-- What is known of the contents of an object. -/
def Payload.Fits (K : Premises) : Payload → Prop
  | array a => K.sound → a.Sound
  | method m => K.reflects m.member
  | _ => True

/-- What is known of contents that an object gets. -/
def Payload.New (K : Premises) : Payload → Prop
  | record fields => fields = []
  | p => p.Fits K

theorem Payload.New.fits {p : Payload} (hp : p.New K) : p.Fits K := by
  cases p with
  | record fields => trivial
  | _ => exact hp

theorem Payload.New.blank {p : Payload} (hp : p.New K) : p.Blank := by
  cases p with
  | record fields => exact hp
  | _ => trivial

/-- Where all methods may be found, contents fit that are in order. -/
theorem Payload.fits_iff (hsound : K.sound) (hall : ∀ m, K.reflects m) (p : Payload) : p.Fits K ↔ p.Sound := by
  cases p with
  | array a => exact ⟨fun ha => ha hsound, fun ha _ => ha⟩
  | method m => exact ⟨fun _ => trivial, fun _ => hall _⟩
  | _ => exact Iff.rfl

namespace Heap

variable {h h' : Heap}

/-- What is known of the objects of a heap. -/
structure Fits (K : Premises) (h : Heap) : Prop where
  contents : h.Holds (Payload.Fits K)
  interned : K.sound → ∀ text id, h.interned? text = some id → h.contents? id = some (.string text)

/-- Where all methods may be found, a heap fits that is in order. -/
theorem fits_iff (hsound : K.sound) (hall : ∀ m, K.reflects m) : h.Fits K ↔ h.Sound :=
  ⟨fun hf => ⟨fun id p hid => (p.fits_iff hsound hall).1 (hf.contents id p hid), hf.interned hsound⟩,
    fun hs => ⟨fun id p hid => (p.fits_iff hsound hall).2 (hs.arrays id p hid), fun _ => hs.interned⟩⟩

/-- Lasting contents that stay, and no new interned texts. -/
theorem Fits.of_grows (hs : h.Fits K) (hg : h.Grows h') (hi : h'.interned = h.interned)
    (hc : h'.Holds (Payload.Fits K)) : h'.Fits K := by
  refine ⟨hc, fun hsound text id hid => hg id _ trivial (hs.interned hsound text id ?_)⟩
  rwa [interned?, ← hi]

theorem Fits.push (hs : h.Fits K) (className : String) {p : Option Payload}
    (hp : ∀ q, p = some q → q.Fits K) : (h.push className p).2.Fits K :=
  hs.of_grows (lasts_push h className p).grows rfl (hs.contents.push className hp)

theorem Fits.pushInterned (hs : h.Fits K) (text : Units) : (h.pushInterned text).2.Fits K := by
  have hpush := hs.push "java/lang/String" (p := some (.string text)) fun q hq => by cases hq; trivial
  refine ⟨hpush.contents, fun hsound text' id hid => ?_⟩
  rw [interned?_pushInterned] at hid
  split at hid
  · subst text'
    obtain rfl : h.size = id := by simpa using hid
    exact (contents?_push h _ _ _).trans (if_pos rfl)
  · exact hpush.interned hsound text' id hid

theorem Fits.setPayload (hs : h.Fits K) {id : Nat} (hu : h.contents? id = none) {p : Payload}
    (hp : p.Fits K) : (h.setPayload id p).Fits K :=
  hs.of_grows (lasts_setPayload hu p).grows rfl (hs.contents.setPayload id hp)

theorem Fits.edit {α : Type} {view : View α} (hv : view.Mutable) (hs : h.Fits K) (id : Nat) {f : α → α}
    (hf : ∀ a, (view.make a).Fits K → (view.make (f a)).Fits K) : (h.edit view id f).Fits K :=
  hs.of_grows (lasts_edit hv h id f).grows rfl (hs.contents.edit hv id hf)

end Heap

namespace Exec

/-- Any result will do. -/
abbrev Any {α : Type} : α → Prop := fun _ => True

inductive Alike (E : Setting) : {α : Type} → (α → Prop) → Exec α → Exec α → Prop
  | pure {α : Type} {P : α → Prop} {a : α} (ha : P a) : Alike E P (Pure.pure a) (Pure.pure a)
  | failWith {α : Type} {P : α → Prop} (e : Error) : Alike E P (Exec.failWith e) (Exec.failWith e)
  | bind {α β : Type} {P : α → Prop} {Q : β → Prop} {x y : Exec α} {f g : α → Exec β} (hxy : Alike E P x y)
      (hfg : ∀ a, P a → Alike E Q (f a) (g a)) : Alike E Q (x >>= f) (y >>= g)
  | weaken {α : Type} {P P' : α → Prop} {x y : Exec α} (h : Alike E P x y) (hP : ∀ a, P a → P' a) :
      Alike E P' x y
  | world : Alike E E.Knows MonadReader.read MonadReader.read
  /-- Looks at the methods that run, the heap and the static fields. -/
  | get {β : Type} {Q : β → Prop} {f g : State → Exec β}
      (hfg : ∀ s : State, s.heap.Fits E.toPremises → Alike E Q (f s) (g s))
      (hg : ∀ s t : State, t.frames = s.frames → t.heap = s.heap → t.statics = s.statics → g t = g s) :
      Alike E Q (MonadState.get >>= f) (MonadState.get >>= g)
  /-- An action on the heap alone. -/
  | ofHeap {α : Type} {P : α → Prop} {x : Exec α} {f : Heap → Except Fault (α × Heap)}
      (hx : ∀ w s, x w s = match f s.heap with
        | .ok (a, heap) => .ok a { s with heap }
        | .error e => .error (.error (.emulation e)) s)
      (hf : ∀ h a h', h.Fits E.toPremises → f h = .ok (a, h') → P a ∧ h'.Fits E.toPremises ∧ h.Leads E.writes h') :
      Alike E P x x
  | clock : Alike E Any Exec.readClock Exec.readClock
  | putStatic (hw : E.writes) (owner name : String) (v : Value) :
      Alike E Any (modifyThe State (·.putStatic owner name v)) (modifyThe State (·.putStatic owner name v))
  | resolveStatic {f : MemberRef} (hf : E.searches f) :
      Alike E Any (Step.resolveStatic f) (Step.resolveStatic f)
  | call {x y : Exec Value} (h : E.calls x y) : Alike E Any x y
  | setUp {x y : Exec Unit} (h : E.setUps x y) : Alike E Any x y

namespace Alike

variable {E : Setting} {α β : Type} {P : α → Prop} {Q : β → Prop} {x y : Exec α}

theorem any (h : Alike E P x y) : Alike E Any x y := h.weaken fun _ _ => trivial

theorem value (a : α) : Alike E Any (Pure.pure a) (Pure.pure a) := pure trivial

theorem fail (f : Fault) : Alike E P (Exec.fail f) (Exec.fail f) := failWith _

theorem next {f g : α → Exec β} (hxy : Alike E Any x y) (hfg : ∀ a, Alike E Q (f a) (g a)) :
    Alike E Q (x >>= f) (y >>= g) := hxy.bind fun a _ => hfg a

theorem map (h : Alike E P x y) {f : α → β} (hf : ∀ a, P a → Q (f a)) : Alike E Q (f <$> x) (f <$> y) :=
  h.bind fun a ha => pure (hf a ha)

theorem mapM {γ : Type} {f g : γ → Exec α} {cs : List γ} (hfg : ∀ c ∈ cs, Alike E P (f c) (g c)) :
    Alike E (fun as => ∀ a ∈ as, P a) (cs.mapM f) (cs.mapM g) := by
  induction cs with
  | nil => exact pure nofun
  | cons c cs ih =>
    obtain ⟨hc, hcs⟩ := List.forall_mem_cons.1 hfg
    rw [List.mapM_cons, List.mapM_cons]
    refine bind hc fun a ha => bind (ih hcs) fun as has => pure fun b hb => ?_
    rcases List.mem_cons.1 hb with rfl | hb
    · exact ha
    · exact has b hb

theorem ofOk {r : Except Fault α} (hr : ∀ a, r = .ok a → P a) : Alike E P (liftM r : Exec α) (liftM r) := by
  cases r with
  | ok a => exact pure (hr a rfl)
  | error f => exact fail f

theorem ofExcept (r : Except Fault α) : Alike E Any (liftM r : Exec α) (liftM r) :=
  ofOk fun _ _ => trivial

theorem read : Alike E Any (MonadReader.read : Exec World) MonadReader.read := world.any

/-! ### The heap -/

theorem readHeap {f : Heap → Except Fault α} (hf : ∀ h a, h.Fits E.toPremises → f h = .ok a → P a) :
    Alike E P (Exec.readHeap f) (Exec.readHeap f) := by
  refine ofHeap (onHeap_readHeap f) fun h a h' hs hx => ?_
  obtain ⟨ha, rfl⟩ := Heap.looking_ok hx
  exact ⟨hf h' a hs ha, hs, .refl _⟩

theorem look (f : Heap → Except Fault α) : Alike E Any (Exec.readHeap f) (Exec.readHeap f) :=
  readHeap fun _ _ _ _ => trivial

theorem className (v : Value) : Alike E Any (Exec.className v) (Exec.className v) := look _

theorem narrow (view : View α) (v : Value) : Alike E Any (Exec.narrow view v) (Exec.narrow view v) := look _

/-- What is known of contents is known of contents that are found in the heap. -/
theorem narrowFitting {view : View α} (hview : ∀ p : Payload, p.Fits E.toPremises → ∀ a, view.read? p = some a → P a)
    (v : Value) : Alike E P (Exec.narrow view v) (Exec.narrow view v) :=
  readHeap fun _ _ hs ha => hs.contents.narrow hview ha

theorem narrowArray (v : Value) :
    Alike E (fun a => E.sound → a.Sound) (Exec.narrow View.array v) (Exec.narrow View.array v) :=
  narrowFitting (fun p hp a ha => by cases p <;> cases ha; exact hp) v

theorem make (className : String) {p : Option Payload} (hp : ∀ q, p = some q → q.New E.toPremises) :
    Alike E (·.isReferenceLike = true) (Exec.make className p) (Exec.make className p) := by
  refine ofHeap (onHeap_make className p) fun h a h' hs hx => ?_
  obtain ⟨hroom, rfl, rfl⟩ := Heap.making_ok hx
  exact ⟨rfl, hs.push className fun q hq => (hp q hq).fits,
    (Heap.Alters.push h className (fun q hq => (hp q hq).blank) hroom).leads⟩

theorem allocateAs (className : String) {p : Payload} (hp : p.New E.toPremises) :
    Alike E (·.isReferenceLike = true) (Exec.allocateAs className p) (Exec.allocateAs className p) :=
  make className fun q hq => by cases hq; exact hp

theorem allocate {p : Payload} (hp : p.New E.toPremises) :
    Alike E (·.isReferenceLike = true) (Exec.allocate p) (Exec.allocate p) := allocateAs _ hp

theorem newString (text : Units) :
    Alike E (·.isReferenceLike = true) (Exec.newString text) (Exec.newString text) := allocate trivial

theorem placeholder (className : String) :
    Alike E (·.isReferenceLike = true) (Exec.placeholder className) (Exec.placeholder className) :=
  make className nofun

theorem construct (v : Value) (expected : String) {p : Payload} (hp : p.New E.toPremises) :
    Alike E Any (Exec.construct v expected p) (Exec.construct v expected p) := by
  refine ofHeap (onHeap_construct v expected p) fun h a h' hs hx => ?_
  obtain ⟨id, hid, rfl⟩ := Heap.constructing_ok hx
  have hu := h.contents?_unconstructed hid
  exact ⟨trivial, hs.setPayload hu hp.fits, (Heap.Alters.construct hu hp.blank).leads⟩

theorem modify {view : View α} (hv : view.Mutable) (hw : view.kind = View.record.kind → E.writes) (v : Value)
    {f : α → α} (hf : ∀ a, (view.make a).Fits E.toPremises → (view.make (f a)).Fits E.toPremises) :
    Alike E Any (Exec.modify view v f) (Exec.modify view v f) := by
  refine ofHeap (onHeap_modify view v f) fun h a h' hs hx => ?_
  obtain ⟨id, rfl⟩ := Heap.editing_ok hx
  exact ⟨trivial, hs.edit hv id hf, (Heap.Alters.edit hv hw h id f).leads⟩

theorem intern (text : Units) :
    Alike E (·.isReferenceLike = true) (Exec.intern text) (Exec.intern text) := by
  refine ofHeap (onHeap_intern text) fun h a h' hs hx => ?_
  obtain ⟨id, hid, rfl, rfl⟩ | ⟨hnew, hroom, rfl, rfl⟩ := Heap.interning_ok hx
  · exact ⟨rfl, hs, .refl _⟩
  · exact ⟨rfl, hs.pushInterned text, (Heap.Alters.intern h hnew hroom).leads⟩

end Alike

end Exec

end Jvm
