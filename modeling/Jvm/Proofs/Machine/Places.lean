import Jvm.Proofs.Machine.Blame

/-!
# From place to place

The run of a method comes from one place to the next, instruction by instruction (`Chain.Moves`), from
where the method is entered (`Chain.Visits`). A run goes on from each place as from the one before
(`run_moves`), and only an execution that has entered its method can end in a fault of the shape
(`exists_run_of_shape`); of a frame there may be one before, where the arguments are stored.
-/

namespace Jvm

namespace Chain

/-- What an instruction can call with the fuel that is left. -/
def hooks (chain : Chain) (fuel : Nat) : Hooks := ⟨invokeWithin chain fuel, initClassWithin chain fuel⟩

/-- Counts an instruction and executes it. -/
def perform (chain : Chain) (hooks : Hooks) (i : Instruction) (a : Activation) : Exec (Next × Activation) := do
  Exec.tick
  Step.execute chain hooks i a

/-- A place in the run of a method: what is to be executed next, and on what. -/
structure Point where
  fuel : Nat
  pc : Nat
  activation : Activation
  state : State

/-- One instruction of a run. -/
inductive Moves (chain : Chain) (w : World) (code : Array Instruction) : Point → Point → Prop where
  | advance {i : Instruction} {fuel pc : Nat} {a a' : Activation} {s s' : State} :
      code[pc]? = some i → chain.perform (chain.hooks fuel) i a w s = .ok (.advance, a') s' →
      Moves chain w code ⟨fuel + 1, pc, a, s⟩ ⟨fuel, pc + 1, a', s'⟩
  | jump {i : Instruction} {fuel pc target : Nat} {a a' : Activation} {s s' : State} :
      code[pc]? = some i → chain.perform (chain.hooks fuel) i a w s = .ok (.jump target, a') s' →
      target < code.size → Moves chain w code ⟨fuel + 1, pc, a, s⟩ ⟨fuel, target, a', s'⟩

/-- The places that the execution of a method comes to: where the method is entered, and from there on. -/
inductive Visits (chain : Chain) (w : World) (owner : ClassFile) (m : Method) (b : MethodBody)
    (arguments : List Value) (receiver : Option Value) : Nat → State → Point → Prop where
  | enter {d : MethodDescriptor} {fuel : Nat} {a : Activation} {s t : State} :
      Step.methodType m.descriptor = .ok d → arguments.length = d.parameters.length →
      Exec.pushFrame owner.name m.name (Int32.ofNat owner.poolSize.toNat) w s = .ok () t →
      Activation.enter w.limits.stackDepth m d arguments receiver = .ok a →
      Visits chain w owner m b arguments receiver (fuel + 1) s ⟨fuel, 0, a, t⟩
  | move {fuel : Nat} {s : State} {q r : Point} :
      Visits chain w owner m b arguments receiver fuel s q → chain.Moves w b.instructions q r →
      Visits chain w owner m b arguments receiver fuel s r

variable {chain : Chain} {hooks : Hooks} {i : Instruction} {code : Array Instruction} {w : World}
  {s s' : State} {a a' : Activation} {e : Stop} {next : Next} {owner : ClassFile} {m : Method}
  {b : MethodBody} {arguments : List Value} {receiver : Option Value} {fuel : Nat} {q r : Point}

theorem perform_apply : chain.perform hooks i a w s =
    if w.limits.instructions ≠ 0 ∧ w.limits.instructions.toNat ≤ s.steps then
      .error (.error (.emulation (.instructionLimit s.steps w.limits.instructions.toNat))) s
    else Step.execute chain hooks i a w { s with steps := s.steps + 1 } := by
  rw [perform, Exec.bind_apply, Exec.tick_apply]
  by_cases h : w.limits.instructions ≠ 0 ∧ w.limits.instructions.toNat ≤ s.steps
  · rw [if_pos h, if_pos h]
  · rw [if_neg h, if_neg h]

theorem perform_ok (h : chain.perform hooks i a w s = .ok (next, a') s') :
    Step.execute chain hooks i a w { s with steps := s.steps + 1 } = .ok (next, a') s' := by
  rw [perform_apply] at h
  split at h
  · cases h
  · exact h

/-! ### Runs -/

theorem run_apply {pc : Nat} : chain.run owner m code (fuel + 1) pc a w s =
    match code[pc]? with
    | none => .error (.error (.emulation (.fellOffEnd owner.name m.name))) s
    | some i =>
      match chain.perform (chain.hooks fuel) i a w s with
      | .error e s' => .error e s'
      | .ok (.advance, a') s' => chain.run owner m code fuel (pc + 1) a' w s'
      | .ok (.jump target, a') s' =>
        if target < code.size then chain.run owner m code fuel target a' w s'
        else .error (.error (.emulation (.invalidBranchTarget target))) s'
      | .ok (.finish v, _) s' => .ok v s' := by
  rw [Chain.run]
  cases code[pc]? with
  | none => rfl
  | some i =>
    dsimp only
    rw [perform, Exec.bind_apply, Exec.bind_apply]
    cases Exec.tick w s with
    | error => rfl
    | ok u t =>
      dsimp only
      rw [Exec.bind_apply]
      have hrun : (Step.execute chain ⟨invokeWithin chain fuel, initClassWithin chain fuel⟩ i).run a w t =
          Step.execute chain (chain.hooks fuel) i a w t := rfl
      rw [hrun]
      cases Step.execute chain (chain.hooks fuel) i a w t with
      | error => rfl
      | ok p u =>
        obtain ⟨next, a'⟩ := p
        cases next with
        | jump target =>
          dsimp only
          split <;> rfl
        | _ => rfl

/-- A run goes on from the next place as it does from this one. -/
theorem run_moves (h : chain.Moves w code q r) :
    chain.run owner m code q.fuel q.pc q.activation w q.state =
      chain.run owner m code r.fuel r.pc r.activation w r.state := by
  cases h with
  | advance hi hx => simp only [run_apply, hi, hx]
  | jump hi hx hlt => simp only [run_apply, hi, hx, if_pos hlt]

/-! ### Where a method is entered -/

theorem values_enter {limit : Nat} {m : Method} {d : MethodDescriptor} {arguments : List Value}
    {receiver : Option Value} {a : Activation}
    (h : Activation.enter limit m d arguments receiver = .ok a) : a.stack.values = [] := by
  simp only [Activation.enter, bind, Except.bind, pure, Except.pure] at h
  repeat' split at h
  all_goals cases h
  all_goals rfl

theorem plain_storeArguments (arguments : List (Value × FieldType)) (index : Nat) (locals : Locals) :
    Plain (Activation.storeArguments arguments index locals) := by
  induction arguments generalizing index locals with
  | nil => exact .ok _
  | cons p rest ih =>
    refine (p.1.aloof_asType _ p.2).plain.bind fun v _ => ?_
    exact (locals.plain_store index v).bind fun locals _ => ih _ locals

theorem plain_enter (limit : Nat) (m : Method) (d : MethodDescriptor) (arguments : List Value)
    (receiver : Option Value) : Plain (Activation.enter limit m d arguments receiver) := by
  have hrest : ∀ p : Locals × Nat, Plain (do
      let locals ← Activation.storeArguments (arguments.zip d.parameters) p.2 p.1
      return { stack := OperandStack.empty limit, locals, returns := d.returns } : Except Fault Activation) :=
    fun p => (plain_storeArguments _ _ _).bind fun _ _ => .ok _
  unfold Activation.enter
  dsimp only
  split
  · exact hrest _
  split
  · exact .error rfl
  · exact (Value.aloof_asReference _ _).plain.bind fun v _ => (Locals.plain_store _ _ v).bind fun _ _ => hrest _

/-- A method that is entered runs in a frame of its own. -/
theorem execute_enter {b : MethodBody} {d : MethodDescriptor} {arguments : List Value} {receiver : Option Value}
    (hb : m.body = some b) (hd : Step.methodType m.descriptor = .ok d)
    (hlength : arguments.length = d.parameters.length)
    (henter : Activation.enter w.limits.stackDepth m d arguments receiver = .ok a) :
    executeWithin chain (fuel + 1) owner m arguments receiver w s =
      Exec.withFrame owner.name m.name (Int32.ofNat owner.poolSize.toNat)
        (chain.run owner m b.instructions fuel 0 a) w s := by
  rw [executeWithin, hb]
  dsimp only
  rw [hd, Exec.bind_apply, Exec.ofExcept_apply]
  dsimp only
  rw [if_neg (fun hne : arguments.length ≠ d.parameters.length => hne hlength), Exec.withFrame_apply,
    Exec.withFrame_apply]
  cases Exec.pushFrame owner.name m.name (Int32.ofNat owner.poolSize.toNat) w s with
  | error => rfl
  | ok _ t =>
    dsimp only
    rw [Exec.bind_apply, Exec.read_apply]
    dsimp only
    rw [Exec.bind_apply, henter, Exec.ofExcept_apply]

/-- An execution that ends in a fault of a frame has entered the method, or the arguments did not get into its
local variables. -/
theorem exists_run_of_isFrame (hm : m.body = some b)
    (h : chain.executeWithin fuel owner m arguments receiver w s = .error e s') (he : e.isFrame = true) :
    (∃ d f, Step.methodType m.descriptor = .ok d ∧ arguments.length = d.parameters.length ∧
      Activation.enter w.limits.stackDepth m d arguments receiver = .error f ∧ e = .error (.emulation f)) ∨
    ∃ fuel' a t u, Visits chain w owner m b arguments receiver fuel s ⟨fuel', 0, a, t⟩ ∧
      chain.run owner m b.instructions fuel' 0 a w t = .error e u := by
  cases fuel with
  | zero =>
    rw [executeWithin] at h
    cases h
    cases he
  | succ fuel =>
    rw [executeWithin, hm] at h
    obtain hd | ⟨d, t, hd, hbody⟩ := Exec.bind_error h
    · rw [Exec.Aloof.ofExcept (Step.aloof_methodType _) w s e s' hd] at he
      cases he
    obtain ⟨htype, rfl⟩ := Exec.ofExcept_ok hd
    split at hbody
    · cases hbody
      cases he
    rename_i hlength
    obtain ⟨t', u, hpush, hact⟩ := Exec.withFrame_isFrame hbody he
    obtain hread | ⟨_, _, hread, henter⟩ := Exec.bind_error hact
    · cases hread
    cases hread
    obtain hlocals | ⟨a, t, hlocals, hrun⟩ := Exec.bind_error henter
    · rw [Exec.ofExcept_apply] at hlocals
      split at hlocals
      · cases hlocals
      · cases hlocals
        exact .inl ⟨d, _, htype, by omega, ‹_›, rfl⟩
    obtain ⟨hentered, rfl⟩ := Exec.ofExcept_ok hlocals
    exact .inr ⟨fuel, a, _, u, .enter htype (by omega) hpush hentered, hrun⟩

/-- An execution that ends in a fault of the shape has entered the method. -/
theorem exists_run_of_shape (hm : m.body = some b)
    (h : chain.executeWithin fuel owner m arguments receiver w s = .error e s') (he : e.isShape = true) :
    ∃ fuel' a t u, Visits chain w owner m b arguments receiver fuel s ⟨fuel', 0, a, t⟩ ∧
      chain.run owner m b.instructions fuel' 0 a w t = .error e u := by
  obtain ⟨d, f, -, -, henter, rfl⟩ | hrun := exists_run_of_isFrame hm h (Stop.isFrame_of_isShape he)
  · exact absurd he (by rw [Stop.isShape, plain_enter _ _ _ _ _ _ henter]; decide)
  · exact hrun

end Chain

end Jvm
