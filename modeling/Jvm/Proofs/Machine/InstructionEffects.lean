import Jvm.Proofs.Flow.StackEffect
import Jvm.Proofs.Machine.Returns
import Jvm.Proofs.Machine.Simulation
import Jvm.Proofs.Machine.StackEffects

/-!
# What instructions take and push

The table of stack effects is right of the machine, too: an instruction that succeeds takes what
`Instruction.stackEffect?` says and pushes a value of the right words, the very constant where it loads
one (`Step.does_execute`), and control goes to a target or falls through. An instruction whose operands
are there raises no fault of the shape itself.

The instructions that load a field are apart: what they push is in the hands of those who stored it.
-/

namespace Jvm

/-- What the table says of the pushed value holds of the pushed values. -/
def Makes (pushed : Option Pushed) (h : Heap) (out : List Value) : Prop :=
  match pushed with
  | none => out = []
  | some p => ∃ v, out = [v] ∧ v.width = p.width ∧ ∀ c, p.constant? = some c → h.IsConstant v c

namespace Step

open Exec (Any)

/-- On a stack of at least `n` entries the action takes `n` of them and puts in their place what `post`
says; it raises no fault of the shape itself. -/
def Does {α : Type} (hooks : Hooks) (n : Nat) (post : Heap → α → List Value → Prop) (m : Step α) : Prop :=
  ∀ a w s, s.heap.Sound → n ≤ a.stack.values.length → match m a w s with
    | .ok (x, a') s' => s'.heap.Sound ∧
        ∃ out, a'.stack.values = out ++ a.stack.values.drop n ∧ post s'.heap x out
    | .error e s' => e.isShape = true → hooks.Raises w e s'

/-- Takes `n` entries and pushes nothing. -/
abbrev Takes {α : Type} (hooks : Hooks) (n : Nat) (P : α → Prop) (m : Step α) : Prop :=
  Does hooks n (fun _ x out => out = [] ∧ P x) m

variable {α β : Type} {hooks : Hooks} {n k : Nat} {P : α → Prop} {i : Instruction}

namespace Does

theorem pure {post : Heap → α → List Value → Prop} (x : α) (h : ∀ heap, post heap x []) :
    Does hooks 0 post (Pure.pure x) :=
  fun a _ s hs _ => ⟨hs, [], by rw [List.nil_append, List.drop_zero], h _⟩

theorem mono {post post' : Heap → α → List Value → Prop} {m : Step α} (h : Does hooks n post m)
    (hpost : ∀ heap x out, post heap x out → post' heap x out) : Does hooks n post' m := by
  intro a w s hs hn
  have h1 := h a w s hs hn
  cases hres : m a w s with
  | error e t =>
    rw [hres] at h1
    exact h1
  | ok p t =>
    rw [hres] at h1
    exact ⟨h1.1, h1.2.imp fun out ho => ⟨ho.1, hpost _ _ out ho.2⟩⟩

theorem cast {post : Heap → α → List Value → Prop} {m : Step α} (h : Does hooks n post m) (hn : n = k) :
    Does hooks k post m := hn ▸ h

/-- The first action takes `k` of the `n + k` entries. -/
theorem bind {post : Heap → β → List Value → Prop} {m : Step α} {f : α → Step β}
    (hm : Takes hooks k P m) (hf : ∀ x, P x → Does hooks n post (f x)) :
    Does hooks (n + k) post (m >>= f) := by
  intro a w s hs hn
  have h1 := hm a w s hs (by omega)
  rw [Step.bind_apply]
  cases hres : m a w s with
  | error e s' =>
    rw [hres] at h1
    exact h1
  | ok p s' =>
    obtain ⟨x, a'⟩ := p
    rw [hres] at h1
    obtain ⟨hs', out, ha', rfl, hx⟩ := h1
    rw [List.nil_append] at ha'
    have h2 := hf x hx a' w s' hs' (by rw [ha', List.length_drop]; omega)
    rw [ha', List.drop_drop, Nat.add_comm k n] at h2
    exact h2

theorem next {post : Heap → β → List Value → Prop} {m : Step α} {f : α → Step β}
    (hm : Takes hooks k Any m) (hf : ∀ x, Does hooks n post (f x)) :
    Does hooks (n + k) post (m >>= f) := hm.bind fun x _ => hf x

theorem liftStack {post : α → List Value → Prop} {m : StackM α} (hm : OperandStack.Does n post m) :
    Does hooks n (fun _ => post) (liftM m) := by
  intro a w s hs hn
  have h := hm a.stack hn
  rw [liftStack_apply]
  cases hres : m a.stack with
  | ok x stack =>
    rw [hres] at h
    exact ⟨hs, h⟩
  | error f stack =>
    rw [hres] at h
    intro hshape
    exact absurd hshape (by rw [Stop.isShape, h]; decide)

/-- An operation that only takes entries. -/
theorem takes {m : StackM α} (hm : OperandStack.Takes n m) : Takes hooks n Any (liftM m) :=
  (liftStack hm).mono fun _ _ _ h => ⟨h, trivial⟩

theorem lift {x : Exec α} (hx : Exec.Refines P x x) (hb : x.Blames hooks) :
    Takes hooks 0 P (liftM x) := by
  intro a w s hs _
  rw [lift_apply]
  cases hres : x w s with
  | ok v s' =>
    obtain ⟨hv, hs'⟩ := hx.keeps w s v s' hs hres
    exact ⟨hs'.sound, [], by rw [List.nil_append, List.drop_zero], rfl, hv⟩
  | error e s' => exact hb w s e s' hres

theorem liftOk {r : Except Fault α} (hr : Plain r) (hP : ∀ x, r = .ok x → P x) :
    Takes hooks 0 P (liftM r) := lift (.ofOk hP) (.ofExcept hr)

theorem liftExcept {r : Except Fault α} (hr : Plain r) : Takes hooks 0 Any (liftM r) :=
  liftOk hr fun _ _ => trivial

theorem fail {post : Heap → α → List Value → Prop} {f : Fault} (hf : f.isShape = false) :
    Does hooks n post (liftM (Exec.fail f : Exec α)) := by
  intro a w s _ _ hshape
  rw [show Stop.isShape (.error (.emulation f)) = f.isShape from rfl, hf] at hshape
  cases hshape

theorem badOperand {post : Heap → α → List Value → Prop} (expected : String) :
    Does hooks n post (Step.badOperand i expected) := fail rfl

theorem get : Takes hooks 0 Any (MonadState.get : Step Activation) :=
  fun a _ s hs _ => ⟨hs, [], by rw [List.nil_append, List.drop_zero], rfl, trivial⟩

theorem locals (locals : Locals) : Takes hooks 0 Any (modify ({ · with locals }) : Step Unit) :=
  fun a _ s hs _ => ⟨hs, [], by rw [List.nil_append, List.drop_zero], rfl, trivial⟩

end Does

/-! ### Operands -/

theorem takes_member : Takes hooks 0 (fun m => i.member? = some m) (member i) := by
  unfold member
  cases h : i.member? with
  | none => exact .badOperand _
  | some m => exact .pure m fun _ => ⟨rfl, rfl⟩

theorem takes_className : Takes hooks 0 Any (className i) := by
  unfold className
  split
  · exact .pure _ fun _ => ⟨rfl, trivial⟩
  · exact .badOperand _

theorem takes_slot : Takes hooks 0 Any (slot i) := by
  unfold slot
  split
  · exact .pure _ fun _ => ⟨rfl, trivial⟩
  · exact .badOperand _

theorem takes_jumpTarget : Takes hooks 0 (· ∈ i.targets) (jumpTarget i) := by
  unfold jumpTarget
  split
  · rename_i target h
    exact .pure _ fun _ => ⟨rfl, by rw [Instruction.targets, h]; exact List.mem_singleton_self _⟩
  · exact .badOperand _

/-! ### Pushing -/

theorem does_push {v : Value} {p : Pushed} (hw : v.width = p.width)
    (hc : ∀ h c, p.constant? = some c → Heap.IsConstant h v c) :
    Does hooks 0 (fun h _ out => Makes (some p) h out) (push v) :=
  (Does.liftStack (OperandStack.does_push v)).mono fun h _ _ hout => ⟨v, hout, hw, hc h⟩

/-- A value that is not a constant. -/
theorem does_pushNew {v : Value} {w : Width} (hw : v.width = w) :
    Does hooks 0 (fun h _ out => Makes (some ⟨w, none⟩) h out) (push v) := does_push hw nofun

/-- A number that is a constant. -/
theorem does_pushNumber {v : Value} {c : Constant} (hc : ∀ h, Heap.IsConstant h v c) :
    Does hooks 0 (fun h _ out => Makes (some ⟨c.width, some c⟩) h out) (push v) :=
  does_push (hc (.empty 0)).width fun h c' hc' => by cases hc'; exact hc h

/-- A stack operation that pushes one value. -/
theorem does_pushes {m : StackM Unit} {w : Width} (hm : OperandStack.Pushes n w m) :
    Does hooks n (fun h _ out => Makes (some ⟨w, none⟩) h out) (liftM m) :=
  (Does.liftStack hm).mono fun _ _ _ ⟨v, hout, hw⟩ => ⟨v, hout, hw, nofun⟩

/-- A text or class that is loaded is the contents of an object. -/
theorem constantValue_ok {c : Constant} {v : Value} {w : World} {s s' : State} (hs : s.heap.Sound)
    (h : constantValue c w s = .ok v s') : s'.heap.IsConstant v c := by
  cases c with
  | string text =>
    change Exec.intern text w s = .ok v s' at h
    rw [Exec.intern, Exec.bind_apply, Exec.get_apply] at h
    cases hi : s.heap.interned? text with
    | some id =>
      simp only [hi] at h
      cases h
      exact ⟨id, rfl, hs.interned text id hi⟩
    | none =>
      simp only [hi] at h
      obtain ⟨_, t, hroom, hpush⟩ := Exec.bind_ok h
      obtain rfl : t = s := Exec.state_readHeap hroom
      cases hpush
      exact ⟨t.heap.size, rfl, (Heap.contents?_push _ _ _ _).trans (if_pos rfl)⟩
  | classRef name =>
    change Exec.make _ _ w s = .ok v s' at h
    obtain ⟨_, t, hroom, hpush⟩ := Exec.bind_ok h
    obtain rfl : t = s := Exec.state_readHeap hroom
    cases hpush
    exact ⟨t.heap.size, rfl, (Heap.contents?_push _ _ _ _).trans (if_pos rfl)⟩
  | _ => cases h; rfl

theorem does_pushConstant (c : Constant) :
    Does hooks 0 (fun h _ out => Makes (some ⟨c.width, some c⟩) h out)
      (do push (← constantValue c)) := by
  intro a w s hs _
  rw [Step.bind_apply, lift_apply]
  cases hres : constantValue c w s with
  | error e s' => exact (aloof_constantValue c).blames w s e s' hres
  | ok v s' =>
    have hc := constantValue_ok hs hres
    obtain ⟨-, hs', -, -⟩ := (refines_constantValue c).keeps w s v s' hs hres
    have hpush := OperandStack.does_push v a.stack (Nat.zero_le _)
    dsimp only
    rw [push, liftStack_apply]
    cases hp : OperandStack.push v a.stack with
    | ok x stack =>
      rw [hp] at hpush
      obtain ⟨out, hstack, rfl⟩ := hpush
      refine ⟨hs', [v], hstack, v, rfl, hc.width, fun c' hc' => ?_⟩
      cases hc'
      exact hc
    | error f stack =>
      rw [hp] at hpush
      intro hshape
      exact absurd hshape (by rw [Stop.isShape, hpush]; decide)

theorem takes_mapM {γ : Type} {f : γ → Step α} (hf : ∀ c, Takes hooks 0 Any (f c)) (cs : List γ) :
    Takes hooks 0 Any (cs.mapM f) := by
  induction cs with
  | nil => exact .pure _ fun _ => ⟨rfl, trivial⟩
  | cons c cs ih =>
    rw [List.mapM_cons]
    exact (hf c).next fun _ => ih.next fun _ => .pure _ fun _ => ⟨rfl, trivial⟩

/-! ### The words of what is pushed -/

theorem width_of_reference {v : Value} (h : v.isReferenceLike = true) : v.width = .single := by
  cases v <;> first | rfl | cases h

theorem width_of_fits {v : Value} {t : FieldType} (h : v.fits t = true) (ht : t.isVoid = false) :
    v.width = Flow.widthOf t := by
  cases t
  case void => cases ht
  case object | array => exact width_of_reference h
  all_goals
    cases v <;> first | rfl | cases h

theorem width_checkSlot {name : String} {t : SlotType} {v v' : Value} (h : checkSlot name t v = .ok v') :
    v'.width = Flow.slotWidth t := by
  cases t
  case ref =>
    have hv : v.isReferenceLike = true ∧ v = v' := by
      change v.asReference name = .ok v' at h
      unfold Value.asReference at h
      split at h
      · cases h
        exact ⟨‹_›, rfl⟩
      · cases h
    obtain ⟨hv, rfl⟩ := hv
    exact width_of_reference hv
  all_goals
    cases v <;> cases h
    rfl

theorem width_load {t : ElemType} {a : ArrayObject} {index : Int32} {v : Value} (ha : a.Sound)
    (ht : checkElement t a = .ok ()) (h : a.load index = .ok v) : v.width = Flow.elemWidth t := by
  have hholds : holds t a = true := by
    unfold checkElement at ht
    split at ht
    · assumption
    · cases ht
  obtain ⟨n, hn⟩ := a.exists_of_load h
  cases a with
  | reference component es =>
    cases t <;> cases hholds
    exact width_of_reference (ha v (Array.mem_of_getElem? hn))
  | _ =>
    obtain ⟨x, -, rfl⟩ := Option.map_eq_some_iff.1 hn
    cases t <;> first | rfl | cases hholds

/-! ### Instructions that go on -/

variable {chain : Chain} {pushed : Option Pushed}

theorem does_invoke {kind : InvokeKind} {m : MemberRef} {d : MethodDescriptor}
    (hh : hooks.Refines hooks) (hm : i.member? = some m) (hd : MethodDescriptor.parse m.descriptor = .ok d) :
    Does hooks (d.parameters.length + if kind = .static then 0 else 1)
      (fun h _ out => Makes (if d.returns.isVoid then none else some ⟨Flow.widthOf d.returns, none⟩) h out)
      (invoke hooks kind i) := by
  unfold invoke
  refine takes_member.bind fun m' hm' => ?_
  obtain rfl : m = m' := Option.some.inj (hm.symm.trans hm')
  refine (Does.liftOk (aloof_methodType _).plain fun d' hd' => show d' = d from ?_).bind fun d' hd' => ?_
  · rw [methodType, hd] at hd'
    exact (Except.ok.inj hd').symm
  subst hd'
  have hresult : ∀ result : Value, Does hooks 0
      (fun h _ out => Makes (if d'.returns.isVoid then none else some ⟨Flow.widthOf d'.returns, none⟩) h out)
      (if d'.returns.isVoid then return () else do push (← result.asType d'.returns "invoke")) := by
    intro result
    cases hvoid : d'.returns.isVoid with
    | true => exact .pure () fun _ => rfl
    | false =>
      refine (Does.liftOk (result.aloof_asType _ _).plain fun v hv => ?_).bind fun v hv => does_pushNew hv
      obtain ⟨rfl, hfits⟩ := fits_of_asType hv
      exact width_of_fits hfits hvoid
  refine (Does.next (k := d'.parameters.length) (n := if kind = .static then 0 else 1)
    (.takes (OperandStack.takes_popN _)) fun arguments => ?_).cast (Nat.add_comm _ _)
  by_cases hkind : kind = .static
  · rw [if_pos hkind, if_pos hkind]
    refine Does.next (n := 0) (k := 0) (.lift (hh.initClass _) (.initClass _)) fun _ => ?_
    exact Does.next (n := 0) (k := 0) (.lift (hh.invoke _) (.invoke _)) hresult
  · rw [if_neg hkind, if_neg hkind]
    refine Does.next (n := 0) (.takes (OperandStack.takes_popReference _)) fun receiver => ?_
    by_cases hnull : receiver.isNull = true
    · rw [if_pos hnull]
      exact Does.next (n := 0) (k := 0) (.fail (f := .nullReference) rfl) hresult
    · rw [if_neg hnull]
      exact Does.next (n := 0) (k := 0) (.lift (hh.invoke _) (.invoke _)) hresult

/-- Where the table says that the instruction takes entries and pushes a value or none, it does so. -/
def AsTable (chain : Chain) (hooks : Hooks) (i : Instruction) : Prop :=
  ∀ n pushed, i.stackEffect? = some (.replace n pushed) →
    Does hooks n (fun h _ out => Makes pushed h out) (executeSimple chain hooks i)

/-! #### Constants and local variables -/

theorem asTable_ldc (operand : Operand) : AsTable chain hooks ⟨.ldc, operand⟩ := by
  intro n pushed h
  cases operand
  case const c => cases h; exact does_pushConstant c
  all_goals cases h

theorem asTable_load (t : SlotType) (operand : Operand) : AsTable chain hooks ⟨.load t, operand⟩ := by
  intro n pushed h
  cases operand
  case slot =>
    cases h
    refine Does.get.next fun a => takes_slot.next fun index => ?_
    refine (Does.liftExcept (a.locals.plain_load index)).next fun v => ?_
    exact (Does.liftOk (aloof_checkSlot _ t v).plain fun v' hv => width_checkSlot hv).bind fun v' hv =>
      does_pushNew hv
  all_goals cases h

theorem asTable_store (t : SlotType) (operand : Operand) : AsTable chain hooks ⟨.store t, operand⟩ := by
  intro n pushed h
  cases h
  refine Does.next (n := 0) (.takes OperandStack.takes_pop) fun v => ?_
  refine (Does.liftExcept (aloof_checkSlot _ t v).plain).next fun v => Does.get.next fun a => ?_
  refine takes_slot.next fun index => (Does.liftExcept (a.locals.plain_store index v)).next fun l => ?_
  exact (Does.locals l).mono fun _ _ _ hout => hout.1

theorem asTable_iinc (operand : Operand) : AsTable chain hooks ⟨.iinc, operand⟩ := by
  intro n pushed h
  cases h
  cases operand
  case increment index delta =>
    refine Does.get.next fun a => (Does.liftExcept (a.locals.plain_load _)).next fun v => ?_
    refine (Does.liftExcept (v.aloof_asInt _).plain).next fun old => Does.get.next fun a => ?_
    refine (Does.liftExcept (a.locals.plain_store _ _)).next fun l => ?_
    exact (Does.locals l).mono fun _ _ _ hout => hout.1
  all_goals exact .badOperand _

/-! #### Arrays -/

theorem asTable_arrayLoad (t : ElemType) (operand : Operand) :
    AsTable chain hooks ⟨.arrayLoad t, operand⟩ := by
  intro n pushed h
  cases h
  refine Does.next (n := 1) (.takes (OperandStack.takes_popInt _)) fun index => ?_
  refine Does.next (n := 0) (.takes (OperandStack.takes_popReference _)) fun v => ?_
  refine (Does.lift (.narrowArray v) (Exec.Aloof.narrow _ v).blames).bind fun a ha => ?_
  refine (Does.liftOk (aloof_checkElement t a).plain fun _ ht => ht).bind fun _ ht => ?_
  exact (Does.liftOk (a.aloof_load index).plain fun v hv => width_load ha ht hv).bind fun v hv =>
    does_pushNew hv

theorem asTable_arrayStore (t : ElemType) (operand : Operand) :
    AsTable chain hooks ⟨.arrayStore t, operand⟩ := by
  intro n pushed h
  cases h
  refine Does.next (n := 2) (.takes OperandStack.takes_pop) fun v => ?_
  refine Does.next (n := 1) (.takes (OperandStack.takes_popInt _)) fun index => ?_
  refine Does.next (n := 0) (.takes (OperandStack.takes_popReference _)) fun target => ?_
  refine (Does.lift (.narrow _ target) (Exec.Aloof.narrow _ target).blames).next fun a => ?_
  refine (Does.liftExcept (aloof_checkElement t a).plain).next fun _ => ?_
  refine (Does.liftExcept (a.aloof_storePosition index v).plain).next fun i => ?_
  refine (Does.lift (.modify View.mutable_array target fun _ ha => ArrayObject.sound_put ha i v)
    (Exec.Aloof.modify _ _ _).blames).mono fun _ _ _ hout => hout.1

theorem asTable_arrayLength (operand : Operand) : AsTable chain hooks ⟨.arrayLength, operand⟩ := by
  intro n pushed h
  cases h
  refine Does.next (n := 0) (.takes (OperandStack.takes_popReference _)) fun v => ?_
  exact (Does.lift (.narrow _ v) (Exec.Aloof.narrow _ v).blames).next fun a => does_pushNew rfl

/-- A sound array of a length that is popped is made and pushed. -/
theorem does_makeArray (name : String) {make : Nat → ArrayObject} (hmake : ∀ length, (make length).Sound) :
    Does hooks 1 (fun h _ out => Makes (some ⟨.single, none⟩) h out) (do
      let length ← arrayLength (← OperandStack.popInt name)
      push (← Exec.allocate (.array (make length)))) := by
  refine Does.next (n := 0) (.takes (OperandStack.takes_popInt _)) fun n => ?_
  refine (Does.liftExcept (aloof_arrayLength n).plain).next fun length => ?_
  exact (Does.lift (.allocateArray (hmake length)) (Exec.Aloof.allocate _).blames).bind
    fun v hv => does_pushNew (width_of_reference hv)

theorem asTable_newArray (operand : Operand) : AsTable chain hooks ⟨.newArray, operand⟩ := by
  intro n pushed h
  cases operand
  case newArray t => cases h; exact does_makeArray _ (ArrayObject.sound_zeros t)
  all_goals cases h

theorem asTable_anewArray (operand : Operand) : AsTable chain hooks ⟨.anewArray, operand⟩ := by
  intro n pushed h
  obtain ⟨rfl, rfl⟩ : n = 1 ∧ pushed = some ⟨.single, none⟩ := by
    cases operand
    case classRef name =>
      dsimp only [Instruction.stackEffect?] at h
      split at h <;> cases h
      exact ⟨rfl, rfl⟩
    all_goals cases h
  refine takes_className.next fun name => (Does.liftExcept (aloof_operandType name).plain).next fun t => ?_
  exact does_makeArray _ (ArrayObject.sound_ofComponent t)

theorem asTable_multiNewArray (operand : Operand) :
    AsTable chain hooks ⟨.multiNewArray, operand⟩ := by
  intro n pushed h
  cases operand
  case multiArray descriptor dimensions =>
    cases h
    refine (Does.liftExcept (aloof_fieldType descriptor).plain).next fun t => ?_
    refine (Does.next (n := 0) (.takes (OperandStack.takes_popN _)) fun counts => ?_).cast (Nat.zero_add _)
    refine (takes_mapM (fun v => ?_) counts).next fun lengths => ?_
    · exact (Does.liftExcept (v.aloof_asInt _).plain).next fun n => .liftExcept (aloof_arrayLength n).plain
    exact (Does.lift (refines_newArrays t lengths) (aloof_newArrays t lengths).blames).bind
      fun v hv => does_pushNew (width_of_reference hv)
  all_goals cases h

/-! #### Fields and calls -/

theorem asTable_putStatic (hh : hooks.Refines hooks) (operand : Operand) :
    AsTable chain hooks ⟨.putStatic, operand⟩ := by
  intro n pushed h
  cases h
  refine takes_member.bind fun m _ => ?_
  refine Does.next (n := 0) (.takes OperandStack.takes_pop) fun v => ?_
  refine (Does.liftExcept (aloof_fieldType _).plain).next fun t => ?_
  refine (Does.liftExcept (v.aloof_asType _ _).plain).next fun v => ?_
  exact (Does.lift (refines_putStatic hh m v) (blames_putStatic m v)).mono fun _ _ _ hout => hout.1

theorem asTable_putField (operand : Operand) : AsTable chain hooks ⟨.putField, operand⟩ := by
  intro n pushed h
  cases h
  refine takes_member.bind fun m _ => ?_
  refine Does.next (n := 1) (.takes OperandStack.takes_pop) fun v => ?_
  refine (Does.liftExcept (aloof_fieldType _).plain).next fun t => ?_
  refine (Does.liftExcept (v.aloof_asType _ _).plain).next fun v => ?_
  refine Does.next (n := 0) (.takes (OperandStack.takes_popReference _)) fun target => ?_
  exact (Does.lift (.modify View.mutable_record target fun _ _ => trivial) (Exec.Aloof.modify _ _ _).blames).mono
    fun _ _ _ hout => hout.1

theorem asTable_invoke (hh : hooks.Refines hooks) (kind : InvokeKind) (operand : Operand) :
    AsTable chain hooks ⟨.invoke kind, operand⟩ := by
  intro n pushed h
  cases operand
  case method m =>
    obtain ⟨d, hd, heffect⟩ := Instruction.exists_of_callEffect h
    cases heffect
    exact does_invoke hh rfl hd
  all_goals cases h

/-! #### Objects -/

theorem asTable_new (hh : hooks.Refines hooks) (operand : Operand) :
    AsTable chain hooks ⟨.new, operand⟩ := by
  intro n pushed h
  cases operand
  case classRef =>
    cases h
    refine takes_className.next fun c => ?_
    refine (Does.lift (hh.initClass c) (.initClass c)).next fun _ => ?_
    exact (Does.lift (.placeholder c) (Exec.Aloof.placeholder c).blames).bind fun v hv =>
      does_pushNew (width_of_reference hv)
  all_goals cases h

theorem asTable_instanceOf (operand : Operand) : AsTable chain hooks ⟨.instanceOf, operand⟩ := by
  intro n pushed h
  cases h
  refine takes_className.next fun target => ?_
  refine Does.next (n := 0) (.takes (OperandStack.takes_popReference _)) fun v => ?_
  refine (Does.lift .read Exec.Aloof.read.blames).next fun w => ?_
  have haloof := Exec.Aloof.readHeap fun h => chain.aloof_instanceOf h w.program v target
  exact (Does.lift (.look _) haloof.blames).next fun b => does_pushNew rfl

theorem asTable_monitor (enter : Bool) (operand : Operand) :
    AsTable chain hooks ⟨.monitor enter, operand⟩ := by
  intro n pushed h
  cases h
  refine Does.next (n := 0) (.takes (OperandStack.takes_popReference _)) fun v => ?_
  split
  · exact .fail rfl
  · exact .pure () fun _ => rfl

theorem asTable_athrow (operand : Operand) : AsTable chain hooks ⟨.athrow, operand⟩ := by
  intro n pushed h
  cases h
  refine Does.next (n := 0) (.takes (OperandStack.takes_popReference _)) fun v => ?_
  exact (Does.lift (.className v) (Exec.Aloof.className v).blames).next fun name => .fail rfl

/-- An instruction whose effect is to take entries and push a value or none does so, unless it loads a
field. -/
theorem does_executeSimple (hh : hooks.Refines hooks)
    (h : i.stackEffect? = some (.replace n pushed)) (hstatic : i.opcode ≠ .getStatic)
    (hfield : i.opcode ≠ .getField) :
    Does hooks n (fun heap _ out => Makes pushed heap out) (executeSimple chain hooks i) := by
  obtain ⟨opcode, operand⟩ := i
  cases opcode
  case getStatic => exact absurd rfl hstatic
  case getField => exact absurd rfl hfield
  case pop | pop2 | dup | swap | checkCast => cases h
  case ifInt | ifIntCmp | ifRefCmp | ifNull | goto | tableSwitch | lookupSwitch | valueReturn
      | voidReturn | jsr | ret | invokeDynamic => exact .fail rfl
  case nop => cases h; exact .pure () fun _ => rfl
  case aconstNull => cases h; exact does_pushNew rfl
  case iconst | lconst | fconst | dconst => cases h; exact does_pushNumber fun _ => rfl
  case bipush | sipush =>
    cases operand
    case int v => cases h; exact does_pushNumber fun _ => rfl
    all_goals cases h
  case ldc => exact asTable_ldc operand _ _ h
  case load t => exact asTable_load t operand _ _ h
  case store t => exact asTable_store t operand _ _ h
  case iinc => exact asTable_iinc operand _ _ h
  case arrayLoad t => exact asTable_arrayLoad t operand _ _ h
  case arrayStore t => exact asTable_arrayStore t operand _ _ h
  case arrayLength => exact asTable_arrayLength operand _ _ h
  case newArray => exact asTable_newArray operand _ _ h
  case anewArray => exact asTable_anewArray operand _ _ h
  case multiNewArray => exact asTable_multiNewArray operand _ _ h
  case arith op t => cases h; exact does_pushes (OperandStack.pushes_arith _ op t)
  case neg t => cases h; exact does_pushes (OperandStack.pushes_negate _ t)
  case shift op size => cases h; exact does_pushes (OperandStack.pushes_shift _ op size)
  case bits op size => cases h; exact does_pushes (OperandStack.pushes_bits _ op size)
  case convert c => cases h; exact does_pushes (OperandStack.pushes_convert _ c)
  case lcmp => cases h; exact does_pushes (OperandStack.pushes_compareLong _)
  case fcmp nan => cases h; exact does_pushes (OperandStack.pushes_compareFloat _ nan)
  case dcmp nan => cases h; exact does_pushes (OperandStack.pushes_compareDouble _ nan)
  case putStatic => exact asTable_putStatic hh operand _ _ h
  case putField => exact asTable_putField operand _ _ h
  case invoke kind => exact asTable_invoke hh kind operand _ _ h
  case new => exact asTable_new hh operand _ _ h
  case instanceOf => exact asTable_instanceOf operand _ _ h
  case monitor enter => exact asTable_monitor enter operand _ _ h
  case athrow => exact asTable_athrow operand _ _ h

end Step

end Jvm
