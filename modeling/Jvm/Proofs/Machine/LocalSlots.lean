import Jvm.Proofs.Machine.InstructionEffects
import Jvm.Proofs.Machine.Intents
import Jvm.Proofs.Machine.LocalHistory

/-!
# Which local variables an instruction needs

The fault of a missing local variable (`Fault.isLocal`) comes from a load or a store alone, and none of them changes
how many variables there are. `Step.Framed n x` says of an action that it leaves `n` variables where there are `n` and
does not miss one. All that an instruction does by itself is of this kind if there are as many variables as it names
(`Step.framed_effect`): a value that is stored has the words that the opcode says.
-/

namespace Jvm

/-- There was no such local variable. -/
def Fault.isLocal : Fault → Bool
  | localIndex .. => true
  | _ => false

def Stop.isLocal : Stop → Bool
  | error (.emulation f) => f.isLocal
  | _ => false

theorem Fault.isFrame_of_isLocal {f : Fault} (h : f.isLocal = true) : f.isFrame = true := by
  cases f <;> first | rfl | cases h

theorem Stop.isFrame_of_isLocal {e : Stop} (h : e.isLocal = true) : e.isFrame = true := by
  unfold isLocal at h
  split at h
  · exact Fault.isFrame_of_isLocal h
  · cases h

theorem Fault.isLocal_of_isFrame {f : Fault} (h : f.isFrame = false) : f.isLocal = false := by
  cases hlocal : f.isLocal with
  | false => rfl
  | true => rw [← h, isFrame_of_isLocal hlocal]

theorem Stop.isLocal_of_isFrame {e : Stop} (h : e.isFrame = false) : e.isLocal = false := by
  cases hlocal : e.isLocal with
  | false => rfl
  | true => rw [← h, isFrame_of_isLocal hlocal]

/-- The slots up to the last one that the instruction names. -/
def Instruction.slotEnd (i : Instruction) : Nat :=
  match i.operand with
  | .slot index | .increment index _ => index.toNat + i.slotWidth
  | _ => 0

theorem Instruction.slotWidth_pos (i : Instruction) : 0 < i.slotWidth := by
  unfold slotWidth
  split <;> decide

theorem Instruction.slotWidth_store {i : Instruction} {t : SlotType} (hi : i.opcode = .store t) :
    i.slotWidth = (Flow.slotWidth t).words := by
  rw [slotWidth, hi]
  cases t <;> rfl

/-- The result satisfies `P`, or the failure is another than a missing local variable. -/
def Roomy {α : Type} (P : α → Prop) (r : Except Fault α) : Prop :=
  match r with
  | .ok x => P x
  | .error f => f.isLocal = false

namespace Roomy

variable {α β : Type} {P : α → Prop} {Q : β → Prop} {r : Except Fault α}

theorem bind {g : α → Except Fault β} (hr : Roomy P r) (hg : ∀ x, P x → Roomy Q (g x)) : Roomy Q (r >>= g) := by
  cases r with
  | ok x => exact hg x hr
  | error f => exact hr

/-- What is no fault of a frame needs no local variable. -/
theorem of_aloof (hr : Aloof r) (hP : ∀ x, r = .ok x → P x) : Roomy P r := by
  cases r with
  | ok x => exact hP x rfl
  | error f => exact Fault.isLocal_of_isFrame (hr f rfl)

end Roomy

namespace Locals

variable {l : Locals} {n : Nat} {v : Value}

theorem roomy_load (h : n < l.size) : Roomy (fun _ => True) (l.load n) := by
  rw [load_eq h]
  split
  · rfl
  · trivial

theorem roomy_store (h : l.HasRoom n v) : Roomy (·.size = l.size) (l.store n v) := by
  obtain ⟨l', hl'⟩ := exists_store.2 h
  rw [hl']
  exact size_store hl'

end Locals

/-! ### The stack -/

namespace OperandStack

/-- The operation never misses a local variable. -/
def Detached {α : Type} (m : StackM α) : Prop := ∀ s f t, m s = .error f t → f.isLocal = false

namespace Detached

variable {α β : Type}

theorem pure (x : α) : Detached (Pure.pure x) := fun _ _ _ h => nomatch h

theorem throw {f : Fault} (hf : f.isLocal = false) : Detached (MonadExcept.throw f : StackM α) := by
  intro s g t h
  cases h
  exact hf

theorem bind {m : StackM α} {f : α → StackM β} (hm : Detached m) (hf : ∀ x, Detached (f x)) :
    Detached (m >>= f) := by
  intro s g t h
  rw [OperandStack.bind_apply] at h
  split at h
  · exact hf _ _ _ _ h
  · cases h
    exact hm _ _ _ ‹_›

/-- A result that was computed apart from the stack. -/
theorem ofStack {r : Except Fault α} (hr : Aloof r) : Detached (Step.ofStack r) := by
  cases r with
  | ok x => exact pure x
  | error f => exact throw (Fault.isLocal_of_isFrame (hr f rfl))

end Detached

theorem detached_push (v : Value) : Detached (push v) := by
  intro s f t h
  unfold push at h
  split at h
  · cases h
    rfl
  split at h <;> cases h
  rfl

theorem detached_pop : Detached pop := by
  intro s f t h
  unfold pop at h
  split at h <;> cases h
  rfl

theorem detached_peek : Detached peek := by
  intro s f t h
  unfold peek at h
  split at h <;> cases h
  rfl

theorem detached_popN (n : Nat) : Detached (popN n) := by
  intro s f t h
  unfold popN at h
  split at h <;> cases h
  rfl

section

variable (name : String)

theorem isLocal_takeWords {α : Type} [HasWidth α] {n : Nat} {stack : List α} {f : Fault}
    (h : Words.takeWords name n stack = .error f) : f.isLocal = false := by
  induction stack generalizing n with
  | nil => cases n <;> cases h; rfl
  | cons a below ih =>
    cases n with
    | zero => cases h
    | succ n =>
      rw [Words.takeWords] at h
      split at h
      · cases h
        rfl
      split at h
      · cases h
      · cases h
        exact ih ‹_›

theorem isLocal_dupWords {α : Type} [HasWidth α] {top under : Nat} {stack : List α} {f : Fault}
    (h : Words.dupWords name top under stack = .error f) : f.isLocal = false := by
  unfold Words.dupWords at h
  split at h
  · cases h
    exact isLocal_takeWords name ‹_›
  split at h
  · cases h
    exact isLocal_takeWords name ‹_›
  · cases h

theorem detached_popWords (n : Nat) : Detached (popWords name n) := by
  intro s f t h
  unfold popWords at h
  split at h <;> cases h
  exact isLocal_takeWords name ‹_›

theorem detached_swap : Detached swap := by
  intro s f t h
  unfold swap at h
  split at h <;> cases h
  rename_i hswap
  unfold Words.swap at hswap
  split at hswap
  · split at hswap <;> cases hswap
    rfl
  · cases hswap
    rfl

theorem detached_dup (top under : Nat) : Detached (dup name top under) := by
  refine .bind (fun s f t h => ?_) fun _ s f t h => ?_
  · unfold dupUnchecked at h
    split at h <;> cases h
    · exact isLocal_takeWords name ‹_›
    · exact isLocal_dupWords name ‹_›
  · unfold checkLimit at h
    split at h <;> cases h
    rfl

theorem detached_popAs {α : Type} {read : Value → Except Fault α} (hread : ∀ v, Aloof (read v)) :
    Detached (popAs read) := by
  refine detached_pop.bind fun v => ?_
  cases hres : read v with
  | ok x => exact .pure x
  | error f => exact .throw (Fault.isLocal_of_isFrame (hread v f hres))

theorem detached_popInt : Detached (popInt name) := detached_popAs (Value.aloof_asInt name)

theorem detached_popLong : Detached (popLong name) := detached_popAs (Value.aloof_asLong name)

theorem detached_popFloat : Detached (popFloat name) := detached_popAs (Value.aloof_asFloat name)

theorem detached_popDouble : Detached (popDouble name) := detached_popAs (Value.aloof_asDouble name)

theorem detached_popReference : Detached (popReference name) := detached_popAs (Value.aloof_asReference name)

theorem detached_arith (op : ArithOp) (t : NumType) : Detached (arith name op t) := by
  cases t with
  | int =>
    refine (detached_popInt name).bind fun b => (detached_popInt name).bind fun a => ?_
    cases hres : op.onInt a b with
    | ok v => exact detached_push _
    | error f => exact .throw (Fault.isLocal_of_isFrame (op.aloof_onInt a b f hres))
  | long =>
    refine (detached_popLong name).bind fun b => (detached_popLong name).bind fun a => ?_
    cases hres : op.onLong a b with
    | ok v => exact detached_push _
    | error f => exact .throw (Fault.isLocal_of_isFrame (op.aloof_onLong a b f hres))
  | float => exact (detached_popFloat name).bind fun _ => (detached_popFloat name).bind fun _ => detached_push _
  | double => exact (detached_popDouble name).bind fun _ => (detached_popDouble name).bind fun _ => detached_push _

theorem detached_negate (t : NumType) : Detached (negate name t) := by
  cases t with
  | int => exact (detached_popInt name).bind fun _ => detached_push _
  | long => exact (detached_popLong name).bind fun _ => detached_push _
  | float => exact (detached_popFloat name).bind fun _ => detached_push _
  | double => exact (detached_popDouble name).bind fun _ => detached_push _

theorem detached_shift (op : ShiftOp) (size : IntSize) : Detached (shift name op size) := by
  cases size with
  | int => exact (detached_popInt name).bind fun _ => (detached_popInt name).bind fun _ => detached_push _
  | long => exact (detached_popInt name).bind fun _ => (detached_popLong name).bind fun _ => detached_push _

theorem detached_bits (op : BitOp) (size : IntSize) : Detached (bits name op size) := by
  cases size with
  | int => exact (detached_popInt name).bind fun _ => (detached_popInt name).bind fun _ => detached_push _
  | long => exact (detached_popLong name).bind fun _ => (detached_popLong name).bind fun _ => detached_push _

theorem detached_convert (c : Conversion) : Detached (convert name c) := by
  cases c with
  | i2l | i2f | i2d | i2b | i2c | i2s => exact (detached_popInt name).bind fun _ => detached_push _
  | l2i | l2f | l2d => exact (detached_popLong name).bind fun _ => detached_push _
  | f2i | f2l | f2d => exact (detached_popFloat name).bind fun _ => detached_push _
  | d2i | d2l | d2f => exact (detached_popDouble name).bind fun _ => detached_push _

theorem detached_compareLong : Detached (compareLong name) :=
  (detached_popLong name).bind fun _ => (detached_popLong name).bind fun _ => detached_push _

theorem detached_compareFloat (nanGreater : Bool) : Detached (compareFloat name nanGreater) :=
  (detached_popFloat name).bind fun _ => (detached_popFloat name).bind fun _ => detached_push _

theorem detached_compareDouble (nanGreater : Bool) : Detached (compareDouble name nanGreater) :=
  (detached_popDouble name).bind fun _ => (detached_popDouble name).bind fun _ => detached_push _

theorem detached_testZero (c : Cond) : Detached (testZero name c) := (detached_popInt name).bind fun _ => .pure _

theorem detached_testInts (c : Cond) : Detached (testInts name c) :=
  (detached_popInt name).bind fun _ => (detached_popInt name).bind fun _ => .pure _

end

end OperandStack

/-! ### Instructions -/

namespace Step

/-- Where there are `n` local variables, the action leaves as many and does not miss one. -/
def Framed {α : Type} (n : Nat) (x : Step α) : Prop :=
  ∀ a w s, a.locals.size = n → match x a w s with
    | .ok (_, a') _ => a'.locals.size = n
    | .error e _ => e.isLocal = false

variable {α β : Type} {n : Nat} {chain : Chain} {i : Instruction}

namespace Framed

theorem pure (x : α) : Framed n (Pure.pure x) := fun _ _ _ ha => ha

theorem bind {x : Step α} {f : α → Step β} (hx : Framed n x) (hf : ∀ v, Framed n (f v)) : Framed n (x >>= f) := by
  intro a w s ha
  have hfirst := hx a w s ha
  rw [bind_apply]
  cases hres : x a w s with
  | error e t =>
    rw [hres] at hfirst
    exact hfirst
  | ok p t =>
    rw [hres] at hfirst
    exact hf p.1 p.2 w t hfirst

theorem lift {x : Exec α} (hx : x.Aloof) : Framed n (liftM x) := by
  intro a w s ha
  rw [lift_apply]
  cases hres : x w s with
  | error e t => exact Stop.isLocal_of_isFrame (hx w s e t hres)
  | ok v t => exact ha

theorem liftStack {m : StackM α} (hm : OperandStack.Detached m) : Framed n (liftM m) := by
  intro a w s ha
  rw [liftStack_apply]
  cases hres : m a.stack with
  | error f stack => exact hm _ _ _ hres
  | ok v stack => exact ha

/-- The rest may rely on what the result satisfies. -/
theorem bindExcept {P : α → Prop} {r : Except Fault α} {f : α → Step β} (hr : Roomy P r)
    (hf : ∀ v, P v → Framed n (f v)) : Framed n (liftM r >>= f) := by
  intro a w s ha
  rw [bind_apply, liftExcept_apply]
  cases r with
  | error f => exact hr
  | ok v => exact hf v hr a w s ha

theorem liftExcept {r : Except Fault α} (hr : Aloof r) : Framed n (liftM r) := lift (.ofExcept hr)

theorem read : Framed n (MonadReader.read : Step World) := lift .read

/-- The rest may rely on the number of local variables. -/
theorem bindGet {f : Activation → Step β} (hf : ∀ a, a.locals.size = n → Framed n (f a)) :
    Framed n (MonadState.get >>= f) := by
  intro a w s ha
  rw [bind_apply, get_apply]
  exact hf a ha a w s ha

theorem locals {l : Locals} (hl : l.size = n) : Framed n (modify ({ · with locals := l })) := fun _ _ _ _ => hl

theorem mapM {f : α → Step β} (hf : ∀ x, Framed n (f x)) (xs : List α) : Framed n (xs.mapM f) := by
  induction xs with
  | nil => exact pure _
  | cons x xs ih =>
    rw [List.mapM_cons]
    exact (hf x).bind fun _ => ih.bind fun _ => pure _

end Framed

theorem framed_badOperand (expected : String) : Framed n (badOperand (α := α) i expected) := .lift (.fail rfl)

theorem framed_push (v : Value) : Framed n (push v) := .liftStack (OperandStack.detached_push v)

theorem framed_member : Framed n (member i) := by
  unfold member
  split
  · exact .pure _
  · exact framed_badOperand _

theorem framed_className : Framed n (className i) := by
  unfold className
  split
  · exact .pure _
  · exact framed_badOperand _

theorem framed_jumpTarget : Framed n (jumpTarget i) := by
  unfold jumpTarget
  split
  · exact .pure _
  · exact framed_badOperand _

theorem framed_branchIf (taken : Bool) : Framed n (branchIf taken i) := by
  unfold branchIf
  split
  · exact framed_jumpTarget.bind fun _ => .pure _
  · exact .pure _

theorem framed_bindSlot {f : Nat → Step β}
    (hf : ∀ index : UInt16, i.operand = .slot index → Framed n (f index.toNat)) : Framed n (slot i >>= f) := by
  unfold slot
  split
  · rw [pure_bind]
    exact hf _ ‹_›
  · exact fun _ _ _ _ => rfl

theorem framed_load (name : String) (t : SlotType) (hn : i.slotEnd ≤ n) :
    Framed n (do
      let v ← (← get).locals.load (← slot i)
      push (← checkSlot name t v)) := by
  refine .bindGet fun a ha => framed_bindSlot fun index hop => ?_
  have hroom : index.toNat < a.locals.size := by
    have hend : i.slotEnd = index.toNat + i.slotWidth := by rw [Instruction.slotEnd, hop]
    have hpos := i.slotWidth_pos
    omega
  refine .bindExcept (Locals.roomy_load hroom) fun v _ => ?_
  exact (Framed.liftExcept (aloof_checkSlot name t v)).bind fun v => framed_push v

theorem framed_store (name : String) (t : SlotType) (hi : i.opcode = .store t) (hn : i.slotEnd ≤ n) :
    Framed n (do
      let v ← checkSlot name t (← OperandStack.pop)
      let locals ← (← get).locals.store (← slot i) v
      modify ({ · with locals })) := by
  refine (Framed.liftStack OperandStack.detached_pop).bind fun v => ?_
  refine .bindExcept (.of_aloof (aloof_checkSlot name t v) fun v' hv => width_checkSlot hv) fun v' hv => ?_
  refine .bindGet fun a ha => framed_bindSlot fun index hop => ?_
  have hroom : a.locals.HasRoom index.toNat v' := by
    have hend : i.slotEnd = index.toNat + i.slotWidth := by rw [Instruction.slotEnd, hop]
    rw [Locals.HasRoom, hv, ← Instruction.slotWidth_store hi]
    omega
  exact .bindExcept (Locals.roomy_store hroom) fun l hl => .locals (hl.trans ha)

theorem framed_increment (name : String) {index : UInt16} {delta : Int16} (hi : i.operand = .increment index delta)
    (hn : i.slotEnd ≤ n) :
    Framed n (do
      let old ← (← (← get).locals.load index.toNat).asInt name
      let locals ← (← get).locals.store index.toNat (.int (old + delta.toInt32))
      modify ({ · with locals })) := by
  have hend : i.slotEnd = index.toNat + i.slotWidth := by rw [Instruction.slotEnd, hi]
  have hpos := i.slotWidth_pos
  refine .bindGet fun a ha => .bindExcept (Locals.roomy_load (by omega)) fun v _ => ?_
  refine (Framed.liftExcept (v.aloof_asInt name)).bind fun old => .bindGet fun a ha => ?_
  have hroom : a.locals.HasRoom index.toNat (.int (old + delta.toInt32)) := by
    change index.toNat + 1 ≤ a.locals.size
    omega
  exact .bindExcept (Locals.roomy_store hroom) fun l hl => .locals (hl.trans ha)

theorem aloof_getStatic (m : MemberRef) : (getStatic .idle m).Aloof := by
  refine (Exec.Aloof.pure ()).bind fun _ => (aloof_resolveStatic m).bind fun p => Exec.Aloof.get.bind fun s => ?_
  split
  · exact .pure _
  split
  · exact aloof_constantValue _
  · exact (Exec.Aloof.ofExcept (aloof_fieldType _)).bind fun _ => .pure _

theorem aloof_putStatic (m : MemberRef) (v : Value) : (putStatic .idle m v).Aloof :=
  (Exec.Aloof.pure ()).bind fun _ => (aloof_resolveStatic m).bind fun _ => .never fun _ _ => ⟨_, _, rfl⟩

theorem framed_invoke (kind : InvokeKind) : Framed n (invoke .idle kind i) := by
  unfold invoke
  repeat' first
    | with_reducible first
      | exact .pure _ | exact framed_member | exact .liftExcept (aloof_methodType _)
      | exact .liftExcept (Value.aloof_asType _ _ _) | exact framed_push _
      | exact .liftStack (OperandStack.detached_popN _) | exact .liftStack (OperandStack.detached_popReference _)
      | exact .lift (.fail rfl)
      | refine Framed.bind ?_ fun _ => ?_
    | exact .lift (.pure _)
    | split

/-- By itself an instruction needs the local variables that it names. -/
theorem framed_executeSimple (hn : i.slotEnd ≤ n) : Framed n (executeSimple chain .idle i) := by
  unfold executeSimple
  split <;> dsimp only
  case h_10 => exact framed_load _ _ hn
  case h_11 => exact framed_store _ _ ‹_› hn
  case h_12 =>
    split
    · exact framed_increment _ ‹_› hn
    · exact framed_badOperand _
  case h_35 => exact framed_invoke _
  all_goals
    repeat' first
      | with_reducible first
        | exact .pure _ | exact framed_badOperand _ | exact framed_push _ | exact framed_member
        | exact framed_className
        | exact .liftStack (OperandStack.detached_popInt _) | exact .liftStack (OperandStack.detached_popReference _)
        | exact .liftStack OperandStack.detached_pop | exact .liftStack OperandStack.detached_peek
        | exact .liftStack (OperandStack.detached_popN _) | exact .liftStack (OperandStack.detached_popWords _ _)
        | exact .liftStack (OperandStack.detached_dup _ _ _) | exact .liftStack OperandStack.detached_swap
        | exact .liftStack (OperandStack.detached_arith _ _ _) | exact .liftStack (OperandStack.detached_negate _ _)
        | exact .liftStack (OperandStack.detached_shift _ _ _) | exact .liftStack (OperandStack.detached_bits _ _ _)
        | exact .liftStack (OperandStack.detached_convert _ _) | exact .liftStack (OperandStack.detached_compareLong _)
        | exact .liftStack (OperandStack.detached_compareFloat _ _)
        | exact .liftStack (OperandStack.detached_compareDouble _ _)
        | exact .liftExcept (aloof_fieldType _) | exact .liftExcept (aloof_operandType _)
        | exact .liftExcept (aloof_arrayLength _) | exact .liftExcept (aloof_checkElement _ _)
        | exact .liftExcept (ArrayObject.aloof_load _ _) | exact .liftExcept (ArrayObject.aloof_storePosition _ _ _)
        | exact .liftExcept (Value.aloof_asType _ _ _) | exact .liftExcept (Value.aloof_asReference _ _)
        | exact .liftExcept (Value.aloof_asInt _ _)
        | exact .lift (aloof_getStatic _) | exact .lift (aloof_putStatic _ _)
        | exact .lift (aloof_constantValue _) | exact .lift (aloof_newArrays _ _)
        | exact .lift (.narrow _ _) | exact .lift (.modify _ _ _) | exact .lift (.className _) | exact .read
        | exact .lift (.allocate _) | exact .lift (.placeholder _) | exact .lift (.fail rfl)
        | exact .lift (.readHeap fun _ => Chain.aloof_instanceOf _ _ _ _ _)
        | refine .mapM (fun _ => ?_) _
        | refine Framed.bind ?_ fun _ => ?_
      | exact .lift (.pure _)
      | split

theorem framed_valueReturn (name : String) : Framed n (do
    let v ← liftM OperandStack.pop
    return .finish (← v.asType (← get).returns name) : Step Next) :=
  (Framed.liftStack OperandStack.detached_pop).bind fun v => .bindGet fun a _ =>
    (Framed.liftExcept (v.aloof_asType name a.returns)).bind fun _ => .pure _

theorem framed_voidReturn (name : String) : Framed n (do
    let t := (← get).returns
    if t.isVoid then return .finish .void
    else Exec.fail (.typeMismatch name "value return" "void") : Step Next) := by
  refine .bindGet fun a _ => ?_
  dsimp only
  split
  · exact .pure _
  · exact .lift (.fail rfl)

theorem framed_execute (hn : i.slotEnd ≤ n) : Framed n (execute chain .idle i) := by
  unfold execute
  split <;> dsimp only
  case h_8 => exact framed_valueReturn _
  case h_9 => exact framed_voidReturn _
  all_goals
    repeat' first
      | with_reducible first
        | exact .pure _ | exact framed_badOperand _ | exact framed_branchIf _ | exact framed_jumpTarget
        | exact .liftStack (OperandStack.detached_popInt _) | exact .liftStack (OperandStack.detached_popReference _)
        | exact .liftStack (OperandStack.detached_testZero _ _) | exact .liftStack (OperandStack.detached_testInts _ _)
        | exact .lift (.readHeap fun _ => Chain.aloof_compare _ _ _ _)
        | exact framed_executeSimple hn
        | refine Framed.bind ?_ fun _ => ?_
      | split

theorem framed_effect (chain : Chain) (hn : i.slotEnd ≤ n) (result : Value) (asked : Intent) :
    Framed n (effect chain i result asked) := by
  cases asked with
  | plain => exact framed_execute hn
  | loadStatic m => exact (Framed.lift (aloof_getStatic m)).bind fun v => (framed_push v).bind fun _ => .pure _
  | storeStatic m v => exact (Framed.lift (aloof_putStatic m v)).bind fun _ => .pure _
  | create className =>
    exact (Framed.lift (.placeholder className)).bind fun v => (framed_push v).bind fun _ => .pure _
  | call c returns =>
    refine Framed.bind ?_ fun _ => .pure _
    unfold takeResult
    split
    · exact .pure _
    · exact (Framed.liftExcept (result.aloof_asType "invoke" returns)).bind fun v => framed_push v

/-! ### What an instruction asks for -/

theorem detached_onMember {f : MemberRef → StackM Intent} (hf : ∀ m, OperandStack.Detached (f m)) :
    OperandStack.Detached (onMember i f) := by
  unfold onMember
  split
  · exact hf _
  · exact .pure _

theorem detached_storeIntent (name : String) (m : MemberRef) : OperandStack.Detached (storeIntent name m) :=
  OperandStack.detached_pop.bind fun v => (OperandStack.Detached.ofStack (aloof_fieldType _)).bind fun t =>
    (OperandStack.Detached.ofStack (v.aloof_asType name t)).bind fun _ => .pure _

theorem detached_callIntent (kind : InvokeKind) (name : String) (m : MemberRef) :
    OperandStack.Detached (callIntent kind name m) := by
  refine (OperandStack.Detached.ofStack (aloof_methodType _)).bind fun d => ?_
  refine (OperandStack.detached_popN _).bind fun arguments => ?_
  split
  · exact .pure _
  refine (OperandStack.detached_popReference name).bind fun receiver => ?_
  split
  · exact .throw rfl
  · exact .pure _

/-- To take the operands needs no local variable. -/
theorem detached_intent (i : Instruction) : OperandStack.Detached (intent i) := by
  unfold intent
  split
  · exact detached_onMember fun m => .pure _
  · exact detached_onMember fun m => detached_storeIntent _ m
  · exact detached_onMember fun m => detached_callIntent _ _ m
  · split <;> exact .pure _
  · exact .pure _

end Step

end Jvm
