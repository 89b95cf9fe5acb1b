import Jvm.Proofs.Machine.Composition
import Jvm.Proofs.Machine.OrderlyLibrary
import Jvm.Proofs.Machine.OrderlyStacks

/-!
# Instructions are orderly

Every instruction, executed with the standard chain, is built from the steps that a running method may take
(`orderly_execute`). `Step.Orderly` is `Exec.Orderly` for such steps: what is relied on besides the heap are the
local variables, which hold issued references wherever they are looked at, and the stack, about which
`OperandStack.Orderly` says the same.

Values are found at one level and used at a later one, since a class may be set up, or an object made, in
between. So what was issued is raised to the level at hand where it is stored.
-/

namespace Jvm

open Exec (Anything)

variable {E : Surroundings} {n : Nat}

namespace Step

inductive Orderly (E : Surroundings) : {α : Type} → Nat → (Nat → α → Prop) → Step α → Prop
  | pure {α : Type} {n : Nat} {P : Nat → α → Prop} {x : α} (hx : ∀ k, n ≤ k → P k x) :
      Orderly E n P (Pure.pure x)
  | bind {α β : Type} {n : Nat} {P : Nat → α → Prop} {Q : Nat → β → Prop} {m : Step α} {f : α → Step β}
      (hm : Orderly E n P m) (hf : ∀ k x, n ≤ k → P k x → Orderly E k Q (f x)) : Orderly E n Q (m >>= f)
  | raise {α : Type} {n k : Nat} {P : Nat → α → Prop} {m : Step α} (h : Orderly E n P m) (hk : n ≤ k) :
      Orderly E k P m
  | lift {α : Type} {n : Nat} {P : Nat → α → Prop} {x : Exec α} (hx : Exec.Orderly E n P x) :
      Orderly E n P (liftM x)
  | liftStack {α : Type} {n : Nat} {P : Nat → α → Prop} {m : StackM α}
      (hm : OperandStack.Orderly E.toDemands n P m) : Orderly E n P (liftM m)
  /-- Looks at the world, apart from the limits. -/
  | world {β : Type} {n : Nat} {Q : Nat → β → Prop} {f : World → Step β}
      (hf : ∀ w, E.Knows w → Orderly E n Q (f w)) (heq : ∀ w limits, f { w with limits } = f w) :
      Orderly E n Q (MonadReader.read >>= f)
  /-- Looks at the running method, apart from its stack. -/
  | get {β : Type} {n : Nat} {Q : Nat → β → Prop} {f : Activation → Step β}
      (hf : ∀ k a, n ≤ k → (E.handles → a.locals.Issued k) → Orderly E k Q (f a))
      (heq : ∀ a stack, f { a with stack } = f a) : Orderly E n Q (MonadState.get >>= f)
  | locals {n : Nat} {locals : Locals} (hl : E.handles → locals.Issued n) :
      Orderly E n Anything (modify ({ · with locals }))

namespace Orderly

variable {α β : Type} {P : Nat → α → Prop} {Q : Nat → β → Prop} {m : Step α} {f : α → Step β} {v : Value}

theorem value (x : α) : Orderly E n Anything (Pure.pure x) := pure fun _ _ => trivial

theorem next (hm : Orderly E n P m) (hf : ∀ x, Orderly E n Q (f x)) : Orderly E n Q (m >>= f) :=
  hm.bind fun _ x hk _ => (hf x).raise hk

theorem mild {e : Fault} (he : e.isInternal = false) : Orderly E n P (liftM (Exec.fail e : Exec α)) :=
  lift (.mild he)

theorem mapM {γ : Type} {f : γ → Step α} (hf : ∀ c, Orderly E n Anything (f c)) (cs : List γ) :
    Orderly E n Anything (cs.mapM f) := by
  induction cs with
  | nil => exact .value _
  | cons c cs ih =>
    rw [List.mapM_cons]
    exact (hf c).next fun _ => ih.next fun _ => .value _

/-- What comes next where a computation has a result; it takes nothing of the state. -/
theorem after {r : Except Fault α} (hr : Mild r) (hf : ∀ x, r = .ok x → Orderly E n Q (f x)) :
    Orderly E n Q ((liftM r : Step α) >>= f) := by
  cases r with
  | ok x => exact hf x rfl
  | error e => exact mild (hr e rfl)

theorem ofMild {r : Except Fault α} (hr : Mild r) : Orderly E n Anything (liftM r : Step α) :=
  lift (.ofMild hr)

theorem push (hv : E.Issues n v) : Orderly E n Anything (Step.push v) := liftStack (OperandStack.orderly_push hv)

theorem pushScalar (hv : v.ref? = none) : Orderly E n Anything (Step.push v) :=
  push fun _ => Value.issued_of_ref? hv

theorem afterPop {f : Value → Step β} (hf : ∀ k v, n ≤ k → E.Issues k v → Orderly E k Q (f v)) :
    Orderly E n Q (liftM OperandStack.pop >>= f) := (liftStack OperandStack.orderly_pop).bind hf

theorem afterPopReference {f : Value → Step β} (name : String)
    (hf : ∀ k v, n ≤ k → E.Issues k v → v.isReferenceLike = true → Orderly E k Q (f v)) :
    Orderly E n Q (liftM (OperandStack.popReference name) >>= f) :=
  (liftStack (OperandStack.orderly_popReference name)).bind fun k v hk hv => hf k v hk hv.1 hv.2

theorem afterNarrowArray {f : ArrayObject → Step β} (hv : E.Issues n v)
    (hf : ∀ k a, n ≤ k → (E.handles → a.Issued k) → Orderly E k Q (f a)) :
    Orderly E n Q (liftM (Exec.narrow View.array v) >>= f) := (lift (.narrowArray hv)).bind hf

end Orderly

end Step

/-- A value that is returned was issued. -/
def Next.Meets (E : Demands) (n : Nat) : Next → Prop
  | finish v => E.Issues n v
  | _ => True

/-- Calls and set-ups that are relied on. -/
structure Hooks.Orderly (E : Surroundings) (hooks : Hooks) : Prop where
  calls : ∀ n c, c.Proper E.toDemands n → E.calls n (hooks.invoke c)
  setUps : ∀ name, E.setUps (hooks.initClass name)

namespace Step

variable {hooks : Hooks} {i : Instruction}

theorem orderly_badOperand {α : Type} {P : Nat → α → Prop} (expected : String) :
    Orderly E n P (badOperand (α := α) i expected) := .mild rfl

theorem orderly_member : Orderly E n Anything (member i) := by
  unfold member
  split
  · exact .value _
  · exact orderly_badOperand _

theorem orderly_className : Orderly E n Anything (className i) := by
  unfold className
  split
  · exact .value _
  · exact orderly_badOperand _

theorem orderly_slot : Orderly E n Anything (slot i) := by
  unfold slot
  split
  · exact .value _
  · exact orderly_badOperand _

theorem orderly_jumpTarget : Orderly E n Anything (jumpTarget i) := by
  unfold jumpTarget
  split
  · exact .value _
  · exact orderly_badOperand _

theorem orderly_constantValue (c : Constant) : Exec.Orderly E n E.Issues (constantValue c) := by
  cases c with
  | string text => exact .intern text
  | classRef name => exact .allocate (p := .classObject name) ⟨fun _ => trivial, trivial⟩
  | _ => exact .scalar rfl

theorem orderly_replicateExec {α : Type} {P : Nat → α → Prop} {act : Exec α}
    (hP : ∀ k j a, k ≤ j → P k a → P j a) (h : Exec.Orderly E n P act) :
    ∀ count, Exec.Orderly E n (fun k xs => ∀ x ∈ xs, P k x) (replicateExec act count)
  | 0 => .pure fun _ _ _ hx => by cases hx
  | count + 1 => h.bind fun k x hk hx => ((orderly_replicateExec hP h count).raise hk).bind fun j xs hj hxs =>
      .pure fun i hi y hy => by
        rcases List.mem_cons.1 hy with rfl | hy
        · exact hP k i _ (Nat.le_trans hj hi) hx
        · exact hP j i y hi (hxs y hy)

theorem orderly_newArrays (t : FieldType) (lengths : List Nat) :
    Exec.Orderly E n E.Issues (newArrays t lengths) := by
  fun_induction newArrays t lengths generalizing n with
  | case1 component length =>
    exact .allocate (p := .array _) ⟨fun _ => ArrayObject.issued_ofComponent component length, trivial⟩
  | case2 component length rest tail ih =>
    refine (orderly_replicateExec (fun _ _ _ hk hv => hv.mono hk) ih length).bind fun k es hk hes => ?_
    exact .allocate (p := .array (.reference _ es.toArray)) ⟨fun hh v hv => hes v (by simpa using hv) hh, trivial⟩
  | case3 => exact .mild rfl

theorem orderly_getStatic (h : hooks.Orderly E) (m : MemberRef) : Exec.Orderly E n E.Issues (getStatic hooks m) := by
  refine (Exec.Orderly.setUp (h.setUps m.owner)).next fun _ => (Exec.Orderly.resolveStatic m).next fun p => ?_
  refine Exec.Orderly.get (fun s hs _ => ?_) fun s t l _ hstatics _ => ?_
  · split
    · rename_i v hv
      exact .result fun hh => (hs.issued hh).static? hv
    split
    · exact orderly_constantValue _
    · exact .after (fun _ => mild_fieldType _) fun _ _ => .result fun _ => by simp
  · simp only [State.static?, hstatics]

theorem orderly_putStatic (h : hooks.Orderly E) (m : MemberRef) {v : Value} (hv : E.Issues n v) :
    Exec.Orderly E n Anything (putStatic hooks m v) :=
  (Exec.Orderly.setUp (h.setUps m.owner)).next fun _ => (Exec.Orderly.resolveStatic m).next fun p =>
    .putStatic p.1 p.2.name hv

theorem orderly_invoke (h : hooks.Orderly E) (kind : InvokeKind) : Orderly E n Anything (invoke hooks kind i) := by
  unfold invoke
  refine orderly_member.next fun m => .after (mild_methodType _) fun d hd => ?_
  refine (Orderly.liftStack (OperandStack.orderly_popN _)).bind fun k arguments _ harguments => ?_
  have hd := parse_of_methodType hd
  -- what is left to do with the result of the call
  have hresult : ∀ {j v}, E.Issues j v → Orderly E j Anything
      (if d.returns.isVoid = true then Pure.pure () else do Step.push (← v.asType d.returns "invoke")) := by
    intro j v hv
    split
    · exact .value _
    · exact .after (v.mild_asType _ _) fun u hu => .push fun hh => Value.issued_asType (hv hh) hu
  dsimp only
  split
  · refine (Orderly.lift (.setUp (h.setUps m.owner))).next fun _ => ?_
    have hproper : (Call.onClass m arguments).Proper E.toDemands k :=
      ⟨d, hd, fun v hv => by simp [Call.onClass] at hv, harguments.2, fun _ => harguments.1⟩
    exact (Orderly.lift (.call (h.calls k _ hproper))).bind fun _ v _ hv => hresult hv
  refine .afterPopReference _ fun j receiver hj hreceiver _ => ?_
  split
  · exact (Orderly.mild (P := E.Issues) rfl).bind fun _ v _ hv => hresult hv
  · have hproper : (Call.onObject kind m receiver arguments).Proper E.toDemands j := by
      refine ⟨d, hd, fun v hv => ?_, fun v hv => (harguments.2 v hv).mono hj, fun _ => harguments.1⟩
      cases hv
      exact hreceiver
    exact (Orderly.lift (.call (h.calls j _ hproper))).bind fun _ v _ hv => hresult hv

theorem orderly_load (name : String) (t : SlotType) : Orderly E n Anything (do
    let v ← (← get).locals.load (← slot i)
    push (← checkSlot name t v)) := by
  refine .get (fun k a _ ha => orderly_slot.next fun index => ?_) fun _ _ => rfl
  refine .after (a.locals.mild_load index) fun v hv => .after (mild_checkSlot _ _ v) fun u hu => .push fun hh => ?_
  exact issued_checkSlot (Locals.issued_load (ha hh) hv) hu

theorem orderly_store (name : String) (t : SlotType) : Orderly E n Anything (do
    let v ← checkSlot name t (← OperandStack.pop)
    let locals ← (← get).locals.store (← slot i) v
    modify ({ · with locals })) := by
  refine .afterPop fun k v _ hv => .after (mild_checkSlot _ _ v) fun u hu => ?_
  refine .get (fun j a hj ha => orderly_slot.next fun index => ?_) fun _ _ => rfl
  refine .after (a.locals.mild_store index u) fun l hl => .locals fun hh => ?_
  exact Locals.issued_store (ha hh) ((issued_checkSlot (hv hh) hu).mono hj) hl

theorem orderly_increment (name : String) (index : Nat) (delta : Int32) : Orderly E n Anything (do
    let old ← (← (← get).locals.load index).asInt name
    let locals ← (← get).locals.store index (.int (old + delta))
    modify ({ · with locals })) := by
  refine .get (fun _ a _ _ => ?_) fun _ _ => rfl
  refine .after (a.locals.mild_load index) fun v _ => .after (v.mild_asInt name) fun old _ => ?_
  refine .get (fun j b _ hb => ?_) fun _ _ => rfl
  refine .after (b.locals.mild_store index _) fun l hl => .locals fun hh => ?_
  exact Locals.issued_store (hb hh) (Value.issued_int _) hl

theorem orderly_arrayLoad (name : String) (t : ElemType) : Orderly E n Anything (do
    let index ← OperandStack.popInt name
    let a ← Exec.narrow View.array (← OperandStack.popReference name)
    checkElement t a
    push (← a.load index)) := by
  refine (Orderly.liftStack (OperandStack.orderly_popInt name)).next fun index => ?_
  refine .afterPopReference name fun _ v _ hv _ => .afterNarrowArray hv fun k a _ ha => ?_
  refine .after (mild_checkElement t a) fun _ _ => .after (a.mild_load index) fun v hv => .push fun hh => ?_
  exact ArrayObject.issued_load (ha hh) hv

theorem orderly_arrayStore (name : String) (t : ElemType) : Orderly E n Anything (do
    let v ← OperandStack.pop
    let index ← OperandStack.popInt name
    let target ← OperandStack.popReference name
    let a ← Exec.narrow View.array target
    checkElement t a
    let i ← a.storePosition index v
    Exec.modify View.array target (·.put i v)) := by
  refine .afterPop fun k v _ hv => (Orderly.liftStack (OperandStack.orderly_popInt name)).next fun index => ?_
  refine .afterPopReference name fun j target hj htarget _ => .afterNarrowArray htarget fun l a hl _ => ?_
  refine .after (mild_checkElement t a) fun _ _ => .after (a.mild_storePosition index v) fun i _ => ?_
  refine .lift (.modify View.mutable_array (htarget.mono hl) fun l' _ hl' ha => ⟨fun hh => ?_, trivial⟩)
  exact ArrayObject.issued_put (ha.issued hh) i ((hv hh).mono (by omega))

theorem orderly_getField (name : String) (m : MemberRef) : Orderly E n Anything (do
    let t ← fieldType m.descriptor
    let fields ← Exec.narrow View.record (← OperandStack.popReference name)
    push ((fields.get? m.name).getD (Value.initial t))) := by
  refine .after (mild_fieldType _) fun t _ => .afterPopReference name fun k v _ hv _ => ?_
  refine (Orderly.lift (.narrowRecord hv)).bind fun j fields _ hfields => .push fun hh => ?_
  cases hv : fields.get? m.name with
  | none => exact Value.issued_initial t
  | some u => exact Fields.issued_get? (fun f hf => hfields f hf hh) hv

theorem orderly_putField (name : String) (m : MemberRef) : Orderly E n Anything (do
    let v ← OperandStack.pop
    let v ← v.asType (← fieldType m.descriptor) name
    Exec.modify View.record (← OperandStack.popReference name) (·.put m.name v)) := by
  refine .afterPop fun k v _ hv => .after (mild_fieldType _) fun t _ => .after (v.mild_asType name t) fun u hu => ?_
  refine .afterPopReference name fun j target hj htarget _ => ?_
  refine .lift (.modify View.mutable_record htarget fun l fields hl hfields => ⟨fun hh => ?_, trivial⟩)
  exact Fields.issued_put (hfields.issued hh) m.name ((Value.issued_asType (hv hh) hu).mono (by omega))

theorem orderly_instanceOf {v : Value} (hv : E.Issues n v) (hlike : v.isReferenceLike = true)
    (d : ClassDictionary) (target : String) :
    Exec.Orderly E n Anything (Exec.readHeap fun h => Chain.standard.instanceOf d h v target) :=
  .look (fun _ hh hn => Chain.mild_instanceOf d ((hv hh).mono hn) hlike target) fun _ _ => rfl

theorem orderly_checkCast (name target : String) : Orderly E n Anything (do
    let v ← (← OperandStack.peek).asReference name
    if v.isNull then return ()
    else
      let d := (← read).program
      if ← Exec.readHeap fun h => Chain.standard.instanceOf d h v target then return ()
      else Exec.fail (.classCast (← Exec.className v) target)) := by
  refine (Orderly.liftStack OperandStack.orderly_peek).bind fun k v _ hv => ?_
  refine .after (v.mild_asReference name) fun u hu => ?_
  obtain ⟨rfl, hlike⟩ := Value.eq_of_asReference hu
  split
  · exact .value _
  refine .world (fun w _ => ?_) fun _ _ => rfl
  refine (Orderly.lift (orderly_instanceOf hv hlike _ target)).next fun b => ?_
  split
  · exact .value _
  · exact (Orderly.lift (.className hv)).next fun _ => .mild rfl

theorem orderly_executeSimple (h : hooks.Orderly E) :
    Orderly E n Anything (executeSimple .standard hooks i) := by
  unfold executeSimple
  cases i.opcode <;> dsimp only
  case load t => exact orderly_load _ t
  case store t => exact orderly_store _ t
  case arrayLoad t => exact orderly_arrayLoad _ t
  case arrayStore t => exact orderly_arrayStore _ t
  case arrayLength =>
    exact .afterPopReference _ fun _ _ _ hv _ => .afterNarrowArray hv fun _ _ _ _ => .pushScalar rfl
  case bipush | sipush =>
    split
    · exact .pushScalar rfl
    · exact orderly_badOperand _
  case ldc =>
    split
    · exact (Orderly.lift (orderly_constantValue _)).bind fun _ _ _ hv => .push hv
    · exact orderly_badOperand _
  case iinc =>
    split
    · exact orderly_increment _ _ _
    · exact orderly_badOperand _
  case getField => exact orderly_member.next fun m => orderly_getField _ m
  case putField => exact orderly_member.next fun m => orderly_putField _ m
  case getStatic =>
    exact orderly_member.next fun m => (Orderly.lift (orderly_getStatic h m)).bind fun _ _ _ hv => .push hv
  case putStatic =>
    refine orderly_member.next fun m => .afterPop fun _ v _ hv => .after (mild_fieldType _) fun t _ => ?_
    exact .after (v.mild_asType _ t) fun u hu => .lift (orderly_putStatic h m fun hh => Value.issued_asType (hv hh) hu)
  case new =>
    refine orderly_className.next fun c => (Orderly.lift (.setUp (h.setUps c))).next fun _ => ?_
    exact (Orderly.lift (.placeholder c)).bind fun _ _ _ hv => .push hv
  case newArray =>
    split
    · refine (Orderly.liftStack (OperandStack.orderly_popInt _)).next fun length => .after (mild_arrayLength length) ?_
      exact fun count _ => (Orderly.lift (.allocate (p := .array _)
        ⟨fun _ => ArrayObject.issued_zeros _ count, trivial⟩)).bind fun _ _ _ hv => .push hv
    · exact orderly_badOperand _
  case anewArray =>
    refine orderly_className.next fun name => .after (mild_operandType name) fun component _ => ?_
    refine (Orderly.liftStack (OperandStack.orderly_popInt _)).next fun length => .after (mild_arrayLength length) ?_
    exact fun count _ => (Orderly.lift (.allocate (p := .array _)
      ⟨fun _ => ArrayObject.issued_ofComponent component count, trivial⟩)).bind fun _ _ _ hv => .push hv
  case multiNewArray =>
    split
    · refine .after (mild_fieldType _) fun t _ => ?_
      refine (Orderly.liftStack (OperandStack.orderly_popN _)).next fun counts => ?_
      refine (Orderly.mapM (fun v => ?_) counts).next fun lengths => ?_
      · exact .after (v.mild_asInt _) fun length _ => .ofMild (mild_arrayLength length)
      · exact (Orderly.lift (orderly_newArrays t lengths)).bind fun _ _ _ hv => .push hv
    · exact orderly_badOperand _
  case checkCast => exact orderly_className.next fun target => orderly_checkCast _ target
  case instanceOf =>
    refine orderly_className.next fun target => .afterPopReference _ fun _ v _ hv hlike => ?_
    refine .world (fun w _ => ?_) fun _ _ => rfl
    exact (Orderly.lift (orderly_instanceOf hv hlike _ target)).next fun _ => .pushScalar rfl
  case monitor =>
    refine .afterPopReference _ fun _ v _ _ _ => ?_
    split
    · exact .mild rfl
    · exact .value _
  case athrow => exact .afterPopReference _ fun _ _ _ hv _ => (Orderly.lift (.className hv)).next fun _ => .mild rfl
  case invoke kind => exact orderly_invoke h kind
  case aconstNull | iconst | lconst | fconst | dconst => exact .pushScalar rfl
  case nop => exact .value _
  case pop | pop2 => exact .liftStack (OperandStack.orderly_popWords _ _)
  case dup => exact .liftStack (OperandStack.orderly_dup _ _ _)
  case swap => exact .liftStack OperandStack.orderly_swap
  case arith => exact .liftStack (OperandStack.orderly_arith _ _ _)
  case neg => exact .liftStack (OperandStack.orderly_negate _ _)
  case shift => exact .liftStack (OperandStack.orderly_shift _ _ _)
  case bits => exact .liftStack (OperandStack.orderly_bits _ _ _)
  case convert => exact .liftStack (OperandStack.orderly_convert _ _)
  case lcmp => exact .liftStack (OperandStack.orderly_compareLong _)
  case fcmp => exact .liftStack (OperandStack.orderly_compareFloat _ _)
  case dcmp => exact .liftStack (OperandStack.orderly_compareDouble _ _)
  all_goals exact .mild rfl

theorem orderly_branchIf (taken : Bool) : Orderly E n (Next.Meets E.toDemands) (branchIf taken i) := by
  unfold branchIf
  split
  · exact orderly_jumpTarget.next fun _ => .pure fun _ _ => trivial
  · exact .pure fun _ _ => trivial

theorem orderly_compare {a b : Value} (ha : E.Issues n a) (hb : E.Issues n b) (ha' : a.isReferenceLike = true)
    (hb' : b.isReferenceLike = true) :
    Exec.Orderly E n Anything (Exec.readHeap fun h => Chain.standard.compare h a b) :=
  .look (fun _ hh hn => Chain.mild_compare ((ha hh).mono hn) ((hb hh).mono hn) ha' hb') fun _ _ => rfl

theorem orderly_execute (h : hooks.Orderly E) : Orderly E n (Next.Meets E.toDemands) (execute .standard hooks i) := by
  have hsimple : Orderly E n (Next.Meets E.toDemands) (do executeSimple .standard hooks i; return .advance) :=
    (orderly_executeSimple h).next fun _ => .pure fun _ _ => trivial
  have hjump : ∀ {m}, (target : Nat) → Orderly E m (Next.Meets E.toDemands) (Pure.pure (Next.jump target)) :=
    fun _ => .pure fun _ _ => trivial
  unfold execute
  cases i.opcode <;> dsimp only
  case ifInt c => exact (Orderly.liftStack (OperandStack.orderly_testZero _ c)).next fun _ => orderly_branchIf _
  case ifIntCmp c => exact (Orderly.liftStack (OperandStack.orderly_testInts _ c)).next fun _ => orderly_branchIf _
  case ifRefCmp equal =>
    refine .afterPopReference _ fun k b _ hb hb' => .afterPopReference _ fun j a hj ha ha' => ?_
    exact (Orderly.lift (orderly_compare ha (hb.mono hj) ha' hb')).next fun _ => orderly_branchIf _
  case ifNull null => exact .afterPopReference _ fun _ _ _ _ _ => orderly_branchIf _
  case goto => exact orderly_jumpTarget.next hjump
  case tableSwitch =>
    split
    · exact (Orderly.liftStack (OperandStack.orderly_popInt _)).next fun _ => hjump _
    · exact orderly_badOperand _
  case lookupSwitch =>
    split
    · exact (Orderly.liftStack (OperandStack.orderly_popInt _)).next fun _ => hjump _
    · exact orderly_badOperand _
  case valueReturn t =>
    refine .afterPop fun k v _ hv => .get (fun j a hj _ => ?_) fun _ _ => rfl
    refine .after (v.mild_asType _ _) fun u hu => .pure fun l hl hh => ?_
    exact Value.issued_asType ((hv hh).mono (Nat.le_trans hj hl)) hu
  case voidReturn =>
    refine .get (fun j a hj _ => ?_) fun _ _ => rfl
    split
    · exact .pure fun _ _ _ => Value.issued_void
    · exact .mild rfl
  all_goals exact hsimple

end Step

end Jvm
