import Jvm.Proofs.Machine.Actions

/-!
# What a method returns

An instruction never changes the type that its activation returns, and a return checks its value against
that type. So a method that returns at all returns a value of the type of its descriptor
(`fits_executeWithin`).
-/

namespace Jvm

namespace Step

/-- The action leaves the type that the activation returns. -/
def Keeps {α : Type} (m : Step α) : Prop :=
  ∀ a w s x a' s', m a w s = .ok (x, a') s' → a'.returns = a.returns

variable {α β : Type}

theorem Keeps.pure (x : α) : Keeps (Pure.pure x : Step α) := by
  intro a w s y a' s' h
  cases h
  rfl

theorem Keeps.bind {m : Step α} {f : α → Step β} (hm : m.Keeps) (hf : ∀ x, (f x).Keeps) :
    Keeps (m >>= f) := by
  intro a w s y a' s' h
  obtain ⟨x, a₁, s₁, h1, h2⟩ := bind_ok h
  exact (hf x _ _ _ _ _ _ h2).trans (hm _ _ _ _ _ _ h1)

theorem Keeps.lift (act : Exec α) : Keeps (liftM act : Step α) := by
  intro a w s y a' s' h
  rw [lift_apply] at h
  split at h <;> cases h
  rfl

theorem Keeps.liftStack (m : StackM α) : Keeps (liftM m : Step α) := by
  intro a w s y a' s' h
  rw [liftStack_apply] at h
  split at h <;> cases h
  rfl

theorem Keeps.get : Keeps (MonadState.get : Step Activation) := by
  intro a w s y a' s' h
  cases h
  rfl

theorem Keeps.locals (locals : Locals) : Keeps (modify ({ · with locals }) : Step Unit) := by
  intro a w s y a' s' h
  cases h
  rfl

theorem Keeps.mapM {f : α → Step β} (hf : ∀ x, (f x).Keeps) (xs : List α) : (xs.mapM f).Keeps := by
  induction xs with
  | nil => exact Keeps.pure _
  | cons x xs ih =>
    rw [List.mapM_cons]
    exact Keeps.bind (hf x) fun _ => Keeps.bind ih fun _ => Keeps.pure _

variable {chain : Chain} {hooks : Hooks} {i : Instruction}

theorem keeps_badOperand (expected : String) : (badOperand (α := α) i expected).Keeps := Keeps.lift _

theorem keeps_push (v : Value) : (push v).Keeps := Keeps.liftStack _

theorem keeps_member : (member i).Keeps := by
  unfold member
  split
  · exact Keeps.pure _
  · exact keeps_badOperand _

theorem keeps_className : (className i).Keeps := by
  unfold className
  split
  · exact Keeps.pure _
  · exact keeps_badOperand _

theorem keeps_slot : (slot i).Keeps := by
  unfold slot
  split
  · exact Keeps.pure _
  · exact keeps_badOperand _

theorem keeps_executeSimple : (executeSimple chain hooks i).Keeps := by
  unfold executeSimple
  split <;> dsimp only <;> try split
  all_goals
    repeat' first
      | apply Keeps.pure | apply Keeps.get | apply Keeps.locals | refine Keeps.mapM (fun _ => ?_) _
      | apply keeps_badOperand | apply keeps_push | apply keeps_member | apply keeps_className
      | apply keeps_slot | apply Keeps.lift | apply Keeps.liftStack | apply Keeps.liftExcept
      | refine Keeps.bind ?_ fun _ => ?_
      | split

/-- The action leaves the type that the activation returns, and where it ends the method, it does so with
a value of that type. -/
def Returns (m : Step Next) : Prop :=
  ∀ a w s next a' s', m a w s = .ok (next, a') s' →
    a'.returns = a.returns ∧ ∀ v, next = .finish v → v.fits a.returns = true

theorem Returns.bind {m : Step α} {f : α → Step Next} (hm : m.Keeps) (hf : ∀ x, Returns (f x)) :
    Returns (m >>= f) := by
  intro a w s next a' s' h
  obtain ⟨x, a₁, s₁, h1, h2⟩ := bind_ok h
  have hkeep := hm _ _ _ _ _ _ h1
  obtain ⟨h3, h4⟩ := hf x _ _ _ _ _ _ h2
  exact ⟨h3.trans hkeep, fun v hv => hkeep ▸ h4 v hv⟩

theorem Returns.advance : Returns (Pure.pure .advance) := by
  intro a w s next a' s' h
  cases h
  exact ⟨rfl, nofun⟩

theorem Returns.jump (target : Nat) : Returns (Pure.pure (.jump target)) := by
  intro a w s next a' s' h
  cases h
  exact ⟨rfl, nofun⟩

theorem Returns.badOperand (expected : String) : Returns (badOperand i expected) :=
  fun _ _ _ _ _ _ h => nomatch h

theorem keeps_jumpTarget : (jumpTarget i).Keeps := by
  unfold jumpTarget
  split
  · exact Keeps.pure _
  · exact keeps_badOperand _

theorem returns_branchIf (taken : Bool) : Returns (branchIf taken i) := by
  unfold branchIf
  split
  · exact Returns.bind keeps_jumpTarget fun target => .jump target
  · exact .advance

theorem fits_of_asType {t : FieldType} {name : String} {v v' : Value}
    (h : v.asType t name = .ok v') : v' = v ∧ v.fits t = true := by
  rw [Value.asType] at h
  split at h
  · rename_i hfit
    cases h
    exact ⟨rfl, hfit⟩
  · cases h

theorem returns_valueReturn (name : String) :
    Returns (do
      let v ← liftM OperandStack.pop
      return .finish (← v.asType (← get).returns name)) := by
  refine Returns.bind (Keeps.liftStack _) fun v => ?_
  intro a w s next a' s' h
  obtain ⟨_, _, _, hget, h⟩ := bind_ok h
  cases hget
  obtain ⟨v', _, _, hv, h⟩ := bind_ok h
  rw [liftExcept_apply] at hv
  split at hv
  · rename_i hfit
    cases hv
    cases h
    obtain ⟨rfl, hfit⟩ := fits_of_asType hfit
    exact ⟨rfl, fun u hu => by cases hu; exact hfit⟩
  · cases hv

theorem fits_void {t : FieldType} (h : t.isVoid = true) : Value.void.fits t = true := by
  cases t with
  | void => rfl
  | _ => cases h

theorem returns_voidReturn (name : String) :
    Returns (do
      let t := (← get).returns
      if t.isVoid then return .finish .void
      else Exec.fail (.typeMismatch name "value return" "void")) := by
  intro a w s next a' s' h
  obtain ⟨_, _, _, hget, h⟩ := bind_ok h
  cases hget
  by_cases hvoid : a.returns.isVoid = true
  · simp only [hvoid, if_true] at h
    cases h
    refine ⟨rfl, fun u hu => ?_⟩
    cases hu
    exact fits_void hvoid
  · simp only [hvoid, Bool.false_eq_true, if_false] at h
    cases h

theorem returns_execute : Returns (execute chain hooks i) := by
  unfold execute
  split <;> dsimp only <;> try split
  case h_8 => exact returns_valueReturn _
  case h_9 => exact returns_voidReturn _
  all_goals
    repeat' first
      | exact .advance | exact .jump _ | exact .badOperand _
      | apply returns_branchIf | apply keeps_jumpTarget | apply keeps_executeSimple
      | apply Keeps.lift | apply Keeps.liftStack
      | refine Returns.bind ?_ fun _ => ?_

end Step

namespace Chain

theorem fits_run {chain : Chain} {owner : ClassFile} {m : Method} {code : Array Instruction}
    {fuel pc : Nat} {a : Activation} {w : World} {s s' : State} {v : Value}
    (h : run chain owner m code fuel pc a w s = .ok v s') : v.fits a.returns = true := by
  induction fuel generalizing pc a s with
  | zero => rw [run] at h; cases h
  | succ fuel ih =>
    rw [run] at h
    cases hi : code[pc]? with
    | none =>
      simp only [hi] at h
      cases h
    | some i =>
      simp only [hi] at h
      obtain ⟨_, s₁, -, h⟩ := Exec.bind_ok h
      obtain ⟨⟨next, a'⟩, s₂, hx, h⟩ := Exec.bind_ok h
      obtain ⟨hreturns, hfinish⟩ := Step.returns_execute _ _ _ _ _ _ hx
      dsimp only at h
      cases next with
      | advance => exact hreturns ▸ ih h
      | jump target =>
        dsimp only at h
        split at h
        · exact hreturns ▸ ih h
        · cases h
      | finish v' =>
        cases h
        exact hfinish _ rfl

theorem returns_enter {limit : Nat} {m : Method} {d : MethodDescriptor} {arguments : List Value}
    {receiver : Option Value} {a : Activation}
    (h : Activation.enter limit m d arguments receiver = .ok a) : a.returns = d.returns := by
  simp only [Activation.enter, bind, Except.bind, pure, Except.pure] at h
  repeat' split at h
  all_goals cases h
  all_goals rfl

/-- A method that returns got as many arguments as it has parameters, and its value is of the type that
its descriptor names. -/
theorem fits_executeWithin {chain : Chain} {owner : ClassFile} {m : Method} {fuel : Nat}
    {arguments : List Value} {receiver : Option Value} {w : World} {s s' : State} {v : Value}
    (h : executeWithin chain fuel owner m arguments receiver w s = .ok v s') :
    ∃ d, MethodDescriptor.parse m.descriptor = .ok d ∧ arguments.length = d.parameters.length ∧
      v.fits d.returns = true := by
  cases fuel with
  | zero => rw [executeWithin] at h; cases h
  | succ fuel =>
    rw [executeWithin] at h
    cases hb : m.body with
    | none =>
      simp only [hb] at h
      cases h
    | some body =>
      simp only [hb] at h
      obtain ⟨d, s₁, hd, h⟩ := Exec.bind_ok h
      have hparse : MethodDescriptor.parse m.descriptor = .ok d := by
        rw [Exec.ofExcept_apply, Step.methodType] at hd
        cases hp : MethodDescriptor.parse m.descriptor with
        | error => simp only [hp] at hd; cases hd
        | ok d' => simp only [hp] at hd; cases hd; rfl
      split at h
      · cases h
      rename_i hlen
      refine ⟨d, hparse, by omega, ?_⟩
      obtain ⟨t, u, f, -, h, -⟩ := Exec.withFrame_ok h
      obtain ⟨_, _, hread, h⟩ := Exec.bind_ok h
      cases hread
      obtain ⟨a, t', henter, h⟩ := Exec.bind_ok h
      rw [Exec.ofExcept_apply] at henter
      cases he : Activation.enter w.limits.stackDepth m d arguments receiver with
      | error => simp only [he] at henter; cases henter
      | ok a' =>
        simp only [he] at henter
        cases henter
        exact returns_enter he ▸ fits_run h

end Chain

end Jvm
