import Jvm.Proofs.Machine.Agreement
import Jvm.Proofs.Machine.Fuel
import Jvm.Proofs.Machine.Looser

/-!
# Limits only cut runs short

A method that is executed under wider limits returns the same value or ends in the same fault, and leaves the
same state, unless it had been ended by a limit before (`execute_wider`). The induction on the fuel compares runs
with the same fuel (`Chain.loosened_all`). The fuel that a world gives depends on its limits, but a run that is
not cut off comes to the same with more of it.

Each method that is entered gets a stack with the limit of the world, so the two runs of a method go on with
activations that differ in it. That is why the first field of `Chain.Loosened` compares two actions.
-/

namespace Jvm

open Exec (Anything)

namespace Activation

variable {i j : Nat} {m : Method} {d : MethodDescriptor} {arguments : List Value} {receiver : Option Value}
  {a : Activation}

/-- The limit of the stack has no part in what the local variables become. -/
theorem enter_withLimit (i j : Nat) (m : Method) (d : MethodDescriptor) (arguments : List Value)
    (receiver : Option Value) :
    enter j m d arguments receiver = (enter i m d arguments receiver).map (·.withLimit j) := by
  unfold enter
  simp only [bind, Except.bind, pure, Except.pure]
  by_cases hstatic : m.isStatic = true
  · simp only [hstatic, if_true]
    cases storeArguments (arguments.zip d.parameters) 0
      (Locals.ofCount (max ((m.body.map (·.maxLocals.toNat)).getD 0) (d.argumentSlots + 0))) <;> rfl
  simp only [hstatic, Bool.false_eq_true, if_false]
  cases receiver with
  | none => rfl
  | some v =>
    dsimp only
    cases v.asReference "receiver" with
    | error => rfl
    | ok v =>
      dsimp only
      cases (Locals.ofCount (max ((m.body.map (·.maxLocals.toNat)).getD 0) (d.argumentSlots + 1))).store 0 v with
      | error => rfl
      | ok locals =>
        dsimp only
        cases storeArguments (arguments.zip d.parameters) 1 locals <;> rfl

theorem limit_enter (h : enter i m d arguments receiver = .ok a) : a.stack.limit = i := by
  rw [enter_withLimit i i] at h
  cases hb : enter i m d arguments receiver with
  | error => rw [hb] at h; cases h
  | ok b =>
    rw [hb] at h
    cases h
    rfl

end Activation

namespace Chain

variable {fuel : Nat}

/-- With some fuel, all that runs does under wider limits what it does. -/
structure Loosened (fuel : Nat) : Prop where
  run : ∀ owner m code pc (a : Activation) j, a.stack.limit ≤ j →
    Exec.Looser 0 Eq (standard.run owner m code fuel pc a) (standard.run owner m code fuel pc (a.withLimit j))
  execute : ∀ owner m arguments receiver, Exec.Looser 0 Eq (standard.executeWithin fuel owner m arguments receiver)
    (standard.executeWithin fuel owner m arguments receiver)
  initClass : ∀ name, Exec.Looser 0 Eq (standard.initClassWithin fuel name) (standard.initClassWithin fuel name)
  invoke : ∀ n c, c.Proper .free n →
    Exec.Looser n Eq (standard.invokeWithin fuel c) (standard.invokeWithin fuel c)

theorem Loosened.zero : Loosened 0 where
  run _ _ _ _ _ _ _ := by
    rw [Chain.run]
    exact .cutOff
  execute _ _ _ _ := by
    rw [executeWithin]
    exact .cutOff
  initClass _ := by
    rw [initClassWithin]
    exact .cutOff
  invoke _ _ _ := by
    rw [invokeWithin]
    exact .cutOff

namespace Loosened

variable (h : Loosened fuel)

include h

theorem orderly_hooks : Hooks.Orderly Exec.loosened (standard.hooks fuel) :=
  ⟨fun n c hc => ⟨(Demands.secured_all .free fuel).invoke n c hc, h.invoke n c hc⟩,
    fun name => ⟨(Demands.secured_all .free fuel).initClass name, h.initClass name⟩⟩

theorem answering : Answering Exec.loosened (standard.executeWithin fuel) (standard.invokeWithin fuel) :=
  ⟨fun n owner m arguments receiver hm => ⟨(Demands.secured_all .free fuel).execute n owner m arguments receiver hm,
      (h.execute owner m arguments receiver).raise (Nat.zero_le n)⟩,
    fun n c hc => ⟨(Demands.secured_all .free fuel).invoke n c hc, h.invoke n c hc⟩⟩

theorem looser_perform (i : Instruction) (a : Activation) {j : Nat} (hj : a.stack.limit ≤ j) :
    Exec.Looser 0 (Step.Same a.stack.limit j) (standard.perform (standard.hooks fuel) i a)
      (standard.perform (standard.hooks fuel) i (a.withLimit j)) :=
  Exec.Looser.tick.bind Exec.Secure.tick fun k _ _ _ _ _ =>
    (Step.orderly_execute h.orderly_hooks).looser k a j (Nat.le_refl k) hj

theorem looser_run (owner : ClassFile) (m : Method) (code : Array Instruction) (pc : Nat) (a : Activation) (j : Nat)
    (hj : a.stack.limit ≤ j) : Exec.Looser 0 Eq (standard.run owner m code (fuel + 1) pc a)
      (standard.run owner m code (fuel + 1) pc (a.withLimit j)) := by
  intro w s l k hn hl hk
  rw [run_apply, run_apply]
  cases hi : code[pc]? with
  | none => exact .inr rfl
  | some i =>
    have hwidens := h.looser_perform i a hj w s l k hn hl hk
    dsimp only
    cases hres : standard.perform (standard.hooks fuel) i a w s with
    | error e t =>
      rw [hres] at hwidens
      rcases hwidens with hcut | hy
      · exact .inl hcut
      · rw [hy]
        exact .inr rfl
    | ok p t =>
      rw [hres] at hwidens
      obtain ⟨hlimit, p', ⟨hstack, rfl⟩, hy⟩ := hwidens
      obtain ⟨next, b⟩ := p
      rw [hy]
      have hrun : ∀ pc, Exec.Widens Eq s k (standard.run owner m code fuel pc b w t)
          (standard.run owner m code fuel pc (b.withLimit j) (w.withLimits l) (t.withLimit k)) := fun pc =>
        (h.run owner m code pc b j (hstack ▸ hj) w t l k (Nat.zero_le _) hl (hlimit ▸ hk)).of_limit hlimit
      cases next with
      | advance => exact hrun _
      | jump target =>
        dsimp only
        split
        · exact hrun _
        · exact .inr rfl
      | finish v => exact ⟨hlimit, v, rfl, rfl⟩

theorem looser_enter (owner : ClassFile) (m : Method) (d : MethodDescriptor) (code : Array Instruction)
    (arguments : List Value) (receiver : Option Value) :
    Exec.Looser 0 Eq (do
      let a ← Activation.enter (← read).limits.stackDepth m d arguments receiver
      standard.run owner m code fuel 0 a)
      (do
      let a ← Activation.enter (← read).limits.stackDepth m d arguments receiver
      standard.run owner m code fuel 0 a) := by
  intro w s l k hn hl hk
  -- each of the two stacks has the limit of its world
  have henter := Activation.enter_withLimit w.limits.stackDepth l.stackDepth m d arguments receiver
  rw [Exec.bind_apply, Exec.bind_apply, Exec.read_apply, Exec.read_apply]
  dsimp only [World.withLimits]
  rw [Exec.bind_apply, Exec.bind_apply, henter]
  cases hres : Activation.enter w.limits.stackDepth m d arguments receiver with
  | error f => exact .inr rfl
  | ok a => exact h.run owner m code 0 a _ (Activation.limit_enter hres ▸ hl.stackDepth) w s l k hn hl hk

theorem looser_execute (owner : ClassFile) (m : Method) (arguments : List Value) (receiver : Option Value) :
    Exec.Looser 0 Eq (standard.executeWithin (fuel + 1) owner m arguments receiver)
      (standard.executeWithin (fuel + 1) owner m arguments receiver) := by
  rw [executeWithin]
  cases m.body with
  | none => exact .stop _
  | some body =>
    dsimp only
    refine Exec.Looser.bind (P := Anything) (.ofExcept _)
      (.ofMild (Step.mild_methodType _) fun _ _ _ _ => trivial) fun n d _ _ _ hd => ?_
    subst hd
    split
    · exact .stop _
    have hsecure := (Demands.secured_all .free fuel).secure_enter (n := n) owner m d body.instructions arguments
      receiver (fun _ _ => False.elim) fun _ _ => False.elim
    exact .withFrame _ _ _ ((h.looser_enter owner m d _ arguments receiver).raise (Nat.zero_le n))
      (hsecure.weaken fun _ _ _ _ => trivial)

theorem looser_setUp (c : ClassFile) : Exec.Looser 0 Eq
    (standard.initAbove fuel c >>= fun _ => standard.initSelf fuel c)
    (standard.initAbove fuel c >>= fun _ => standard.initSelf fuel c) := by
  have hsecure := Demands.secured_all .free fuel
  have habove : Exec.Looser 0 Eq (standard.initAbove fuel c) (standard.initAbove fuel c) := by
    unfold initAbove
    split
    · exact h.initClass _
    · exact .pure rfl
  refine habove.bind (hsecure.secure_initAbove c) fun k _ _ _ _ _ => ?_
  unfold initSelf
  split
  · rename_i m _
    have hexecute := hsecure.execute 0 c m [] none (Demands.entered_free _ _ _)
    exact ((h.execute c m [] none).bind hexecute fun _ _ _ _ _ _ => .pure rfl).raise (Nat.zero_le k)
  · exact .pure rfl

theorem looser_initClass (name : String) :
    Exec.Looser 0 Eq (standard.initClassWithin (fuel + 1) name) (standard.initClassWithin (fuel + 1) name) := by
  intro w s l k hn hl hk
  rw [initClassWithin_apply, initClassWithin_apply]
  have hprogram : (w.withLimits l).program = w.program := rfl
  have hstarted : (s.withLimit k).started = s.started := rfl
  rw [hprogram, hstarted]
  cases w.program.get? name with
  | none => exact ⟨rfl, (), rfl, rfl⟩
  | some c =>
    dsimp only
    by_cases hname : name ∈ s.started
    · rw [if_pos hname, if_pos hname]
      exact ⟨rfl, (), rfl, rfl⟩
    · rw [if_neg hname, if_neg hname]
      exact (h.looser_setUp c w { s with started := name :: s.started } l k hn hl hk).of_limit rfl

theorem looser_invoke (n : Nat) (c : Call) (hc : c.Proper .free n) :
    Exec.Looser n Eq (standard.invokeWithin (fuel + 1) c) (standard.invokeWithin (fuel + 1) c) := by
  rw [invokeWithin]
  have hresolve := orderly_resolveWith h.answering hc
  refine hresolve.looser.bind (hresolve.secure Exec.trusted_loosened) fun k r r' _ _ hr => ?_
  subst hr
  split
  · exact .pure rfl
  · exact .stop _

end Loosened

theorem loosened_all (fuel : Nat) : Loosened fuel := by
  induction fuel with
  | zero => exact .zero
  | succ fuel ih => exact ⟨ih.looser_run, ih.looser_execute, ih.looser_initClass, ih.looser_invoke⟩

variable {w : World} {s : State} {l : Limits} {k n n' : Nat} {owner : ClassFile} {m : Method} {arguments : List Value}
  {receiver : Option Value}

/-- With more fuel, too, since a run that is not cut off comes to the same. -/
theorem widens_execute (hn : n ≤ n') (hl : w.limits.Le l) (hk : s.heap.limit ≤ k) :
    Exec.Widens Eq s k (standard.executeWithin n owner m arguments receiver w s)
      (standard.executeWithin n' owner m arguments receiver (w.withLimits l) (s.withLimit k)) := by
  have hwidens := (loosened_all n).execute owner m arguments receiver w s l k (Nat.zero_le _) hl hk
  have hmore : ∀ r, standard.executeWithin n owner m arguments receiver (w.withLimits l) (s.withLimit k) = r →
      (∀ t, r ≠ .error .outOfFuel t) →
      standard.executeWithin n' owner m arguments receiver (w.withLimits l) (s.withLimit k) = r := by
    rintro r rfl hends
    exact executeWithin_eq ordinary_standard hn hends
  cases hres : standard.executeWithin n owner m arguments receiver w s with
  | ok v t =>
    rw [hres] at hwidens
    obtain ⟨hlimit, v', rfl, hy⟩ := hwidens
    exact ⟨hlimit, v, rfl, hmore _ hy fun _ ht => by cases ht⟩
  | error e t =>
    rw [hres] at hwidens
    by_cases hcut : e.IsCut
    · exact .inl hcut
    · refine .inr (hmore _ (hwidens.resolve_left hcut) ?_)
      rintro t' ht'
      cases ht'
      exact hcut (.inl rfl)

/-- Under limits that allow at least as much, a method returns the value that it returned, and ends in the fault in
which it ended if that was not by a limit. The state is the same but for the limit of the heap: the methods that
run, the objects, the static fields, the classes that have been set up and the instructions that were counted. -/
theorem execute_wider (hl : w.limits.Le l) (hk : s.heap.limit ≤ k) (hn : n ≤ n') :
    (∀ v t, standard.executeWithin n owner m arguments receiver w s = .ok v t →
      standard.executeWithin n' owner m arguments receiver (w.withLimits l) (s.withLimit k) =
        .ok v (t.withLimit k)) ∧
    ∀ e t, standard.executeWithin n owner m arguments receiver w s = .error e t → e ≠ .outOfFuel →
      e.faultKind ≠ some .stepBudget →
      standard.executeWithin n' owner m arguments receiver (w.withLimits l) (s.withLimit k) =
        .error e (t.withLimit k) := by
  have hwidens : Exec.Widens Eq s k (standard.executeWithin n owner m arguments receiver w s)
      (standard.executeWithin n' owner m arguments receiver (w.withLimits l) (s.withLimit k)) :=
    widens_execute hn hl hk
  refine ⟨fun v t hv => ?_, fun e t he hfuel hbudget => ?_⟩
  · rw [hv] at hwidens
    obtain ⟨-, v', rfl, hy⟩ := hwidens
    exact hy
  · rw [he] at hwidens
    exact hwidens.resolve_left fun hcut => hcut.elim hfuel hbudget

/-- Just enough for the text that is copied. -/
def tight : Limits := ⟨4, 1, 2, 1⟩

theorem le_tight : tight.Le .standard := ⟨.inr ⟨by decide, by decide⟩, by decide, by decide, by decide⟩

theorem execute_wider_copied : ∃ v t,
    standard.executeWithin 6 copiedClass copiedMain [] none (copiedWorld.withLimits tight) (.start tight) = .ok v t ∧
    standard.executeWithin 99 copiedClass copiedMain [] none copiedWorld (.start .standard) =
      .ok v (t.withLimit 100000) := by
  obtain ⟨v, t, hres⟩ : ∃ v t, standard.executeWithin 6 copiedClass copiedMain [] none (copiedWorld.withLimits tight)
      (.start tight) = .ok v t := ⟨_, _, rfl⟩
  have hlimit : (State.start tight).heap.limit ≤ 100000 := by decide
  have hfuel : 6 ≤ 99 := by decide
  exact ⟨v, t, hres, (execute_wider (w := copiedWorld.withLimits tight) le_tight hlimit hfuel).1 v t hres⟩

end Chain

end Jvm
