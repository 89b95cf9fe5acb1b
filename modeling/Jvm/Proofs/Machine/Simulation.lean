import Jvm.Proofs.Machine.Composition
import Jvm.Proofs.Machine.Refines

/-!
# Whole runs refine each other

The interpreter as a whole keeps the heap in order, and more fuel, another count of instructions and
classes that are set up without code make no difference to a run that succeeds, apart from the limits
(`Chain.level`). Instructions and calls are built alike, given that what they call is refined; the runs
follow by induction on the fuel.
-/

namespace Jvm

open Exec (Any)

/-- What the one hooks do is refined by what the others do. -/
structure Hooks.Refines (hooks hooks' : Hooks) : Prop where
  invoke : ∀ c, Exec.Refines Any (hooks.invoke c) (hooks'.invoke c)
  initClass : ∀ name, Exec.Refines Any (hooks.initClass name) (hooks'.initClass name)

theorem Hooks.Refines.alike {hooks hooks' : Hooks} (h : hooks.Refines hooks') :
    Hooks.Alike Exec.refined hooks hooks' := ⟨h.invoke, h.initClass⟩

namespace Step

variable {chain : Chain} {hooks hooks' : Hooks} {i : Instruction}

/-- The second action refines the first one on every activation. -/
def Refines {α : Type} (m m' : Step α) : Prop := ∀ a, Exec.Refines Any (m a) (m' a)

theorem refines_constantValue (c : Constant) : Exec.Refines Any (constantValue c) (constantValue c) :=
  (alike_constantValue c).refines

theorem refines_newArrays (t : FieldType) (lengths : List Nat) :
    Exec.Refines (·.isReferenceLike = true) (newArrays t lengths) (newArrays t lengths) :=
  (alike_newArrays t lengths).refines

theorem refines_getStatic (h : hooks.Refines hooks') (m : MemberRef) :
    Exec.Refines Any (getStatic hooks m) (getStatic hooks' m) := (alike_getStatic h.alike trivial).refines

theorem refines_putStatic (h : hooks.Refines hooks') (m : MemberRef) (v : Value) :
    Exec.Refines Any (putStatic hooks m v) (putStatic hooks' m v) := (alike_putStatic h.alike trivial trivial v).refines

theorem refines_execute (h : hooks.Refines hooks') :
    Refines (execute chain hooks i) (execute chain hooks' i) :=
  fun a => (alike_execute h.alike (fun _ _ => trivial) (fun _ => trivial) a).refines

end Step

namespace Chain

/-! ### Runs -/

variable {chain : Chain}

/-- Sets up the superclass. -/
def initAbove (chain : Chain) (fuel : Nat) (c : ClassFile) : Exec Unit :=
  match c.superName with
  | some above => initClassWithin chain fuel above
  | none => pure ()

/-- Sets up a class by its own code. -/
def initSelf (chain : Chain) (fuel : Nat) (c : ClassFile) : Exec Unit :=
  match c.setup? with
  | some m => executeWithin chain fuel c m [] none >>= fun _ => pure ()
  | none => pure ()

theorem initClassWithin_apply (fuel : Nat) (name : String) (w : World) (s : State) :
    initClassWithin chain (fuel + 1) name w s = match w.program.get? name with
      | none => .ok () s
      | some c =>
        if name ∈ s.started then .ok () s
        else (initAbove chain fuel c >>= fun _ => initSelf chain fuel c) w
          { s with started := name :: s.started } := by
  rw [initClassWithin, Exec.bind_apply, Exec.read_apply]
  dsimp only
  cases w.program.get? name with
  | none => rfl
  | some c =>
    dsimp only
    rw [Exec.bind_apply, Exec.markStarted_apply]
    by_cases hname : name ∈ s.started
    · rw [if_pos hname, if_pos hname]
      rfl
    · rw [if_neg hname, if_neg hname]
      unfold initAbove initSelf
      cases c.superName <;> cases c.setup? <;> rfl

/-- A class that is set up on the right, and set up without code, is set up on the left without any
further effect. -/
theorem precedes_initClassWithin {fuel : Nat} {name : String} {w : World} {s s' t : State}
    (ht : s.Precedes w.program t) (hname : w.program.contains name = true → name ∈ t.started)
    (h : initClassWithin chain fuel name w s = .ok () s') : s'.Precedes w.program t := by
  induction fuel generalizing name s with
  | zero => rw [initClassWithin] at h; cases h
  | succ fuel ih =>
    rw [initClassWithin_apply] at h
    cases hc : w.program.get? name with
    | none =>
      simp only [hc] at h
      cases h
      exact ht
    | some c =>
      simp only [hc] at h
      by_cases hs : name ∈ s.started
      · rw [if_pos hs] at h
        cases h
        exact ht
      rw [if_neg hs] at h
      have hnamet : name ∈ t.started := hname (by rw [ClassDictionary.contains, hc]; rfl)
      obtain ⟨hsetup, habove⟩ := ht.idle name hnamet hs c hc
      have ht' : State.Precedes w.program { s with started := name :: s.started } t := by
        refine ⟨ht.frames, ht.heap, ht.statics, ht.readings, fun n hn => ?_, fun n hn hn' => ?_⟩
        · rcases List.mem_cons.1 hn with rfl | hn
          · exact hnamet
          · exact ht.started n hn
        · exact ht.idle n hn fun hmem => hn' (List.mem_cons_of_mem _ hmem)
      obtain ⟨_, u, h1, h2⟩ := Exec.bind_ok h
      simp only [initSelf, hsetup] at h2
      cases h2
      unfold initAbove at h1
      cases hsuper : c.superName with
      | none =>
        simp only [hsuper] at h1
        cases h1
        exact ht'
      | some above =>
        simp only [hsuper] at h1
        exact ih ht' (habove above hsuper) h1

/-- With more fuel, all that runs refine what they were. -/
structure Level (chain : Chain) (n n' : Nat) : Prop where
  run : ∀ owner m code pc a,
    Exec.Refines Any (chain.run owner m code n pc a) (chain.run owner m code n' pc a)
  execute : ∀ owner m arguments receiver,
    Exec.Refines Any (chain.executeWithin n owner m arguments receiver)
      (chain.executeWithin n' owner m arguments receiver)
  initClass : ∀ name, Exec.Refines Any (chain.initClassWithin n name) (chain.initClassWithin n' name)
  invoke : ∀ c, Exec.Refines Any (chain.invokeWithin n c) (chain.invokeWithin n' c)

theorem Level.zero (n' : Nat) : Level chain 0 n' where
  run _ _ _ _ _ := by rw [Chain.run]; exact .throw _
  execute _ _ _ _ := by rw [executeWithin]; exact .throw _
  initClass _ := by rw [initClassWithin]; exact .throw _
  invoke _ := by rw [invokeWithin]; exact .throw _

variable {n n' : Nat}

theorem Level.refines_hooks (h : Level chain n n') :
    Hooks.Refines ⟨invokeWithin chain n, initClassWithin chain n⟩
      ⟨invokeWithin chain n', initClassWithin chain n'⟩ := ⟨h.invoke, h.initClass⟩

theorem Level.refines_run (h : Level chain n n') (owner : ClassFile) (m : Method)
    (code : Array Instruction) (pc : Nat) (a : Activation) :
    Exec.Refines Any (chain.run owner m code (n + 1) pc a) (chain.run owner m code (n' + 1) pc a) := by
  rw [Chain.run, Chain.run]
  split
  · exact .fail _
  refine Exec.Refines.tick.next fun _ => (Step.refines_execute h.refines_hooks a).next fun p => ?_
  obtain ⟨next, a'⟩ := p
  cases next with
  | advance => exact h.run _ _ _ _ _
  | jump target =>
    dsimp only
    split
    · exact h.run _ _ _ _ _
    · exact .fail _
  | finish v => exact .value _

theorem Level.refines_execute (h : Level chain n n') (owner : ClassFile) (m : Method)
    (arguments : List Value) (receiver : Option Value) :
    Exec.Refines Any (chain.executeWithin (n + 1) owner m arguments receiver)
      (chain.executeWithin (n' + 1) owner m arguments receiver) := by
  rw [executeWithin, executeWithin]
  split
  · exact .fail _
  refine (Exec.Refines.ofExcept _).next fun d => ?_
  split
  · exact .fail _
  refine .withFrame _ _ _ (Exec.Refines.read.next fun w => ?_)
  exact (Exec.Refines.ofExcept _).next fun a => h.run _ _ _ _ _

theorem Level.refines_invoke (hchain : chain.Ordinary) (h : Level chain n n') (c : Call) :
    Exec.Refines Any (chain.invokeWithin (n + 1) c) (chain.invokeWithin (n' + 1) c) := by
  rw [invokeWithin, invokeWithin]
  refine (alike_resolveWith hchain ⟨fun owner m arguments receiver _ => h.execute owner m arguments receiver,
    fun _ next _ => h.invoke next⟩).refines.next fun v => ?_
  split
  · exact .value _
  · exact .fail _

theorem Level.refines_setUp (h : Level chain n n') (c : ClassFile) :
    Exec.Refines Any (initAbove chain n c >>= fun _ => initSelf chain n c)
      (initAbove chain n' c >>= fun _ => initSelf chain n' c) := by
  unfold initAbove initSelf
  refine Exec.Refines.next ?_ fun _ => ?_
  · split
    · exact h.initClass _
    · exact .value _
  · split
    · exact (h.execute _ _ _ _).next fun _ => .value _
    · exact .value _

theorem Level.refines_initClass (h : Level chain n n') (name : String) :
    Exec.Refines Any (chain.initClassWithin (n + 1) name) (chain.initClassWithin (n' + 1) name) := by
  refine ⟨fun w s a s' hs hx => ?_, fun w s t a s' ht hs hx => ?_⟩
  · rw [initClassWithin_apply] at hx
    cases hc : w.program.get? name with
    | none =>
      simp only [hc] at hx
      cases hx
      exact ⟨trivial, .refl hs⟩
    | some c =>
      simp only [hc] at hx
      by_cases hname : name ∈ s.started
      · rw [if_pos hname] at hx
        cases hx
        exact ⟨trivial, .refl hs⟩
      · rw [if_neg hname] at hx
        obtain ⟨ha, hs'⟩ := (h.refines_setUp c).keeps w { s with started := name :: s.started } a s' hs hx
        exact ⟨ha, hs'.sound, hs'.grows, hs'.frames⟩
  · by_cases hnamet : name ∈ t.started ∧ name ∉ s.started
    · -- the class is set up on the right only
      refine .inl ⟨t, ?_, precedes_initClassWithin ht (fun _ => hnamet.1) hx⟩
      rw [initClassWithin_apply]
      cases w.program.get? name with
      | none => rfl
      | some c => exact if_pos hnamet.1
    rw [initClassWithin_apply] at hx ⊢
    cases hc : w.program.get? name with
    | none =>
      simp only [hc] at hx
      cases hx
      exact .inl ⟨t, rfl, ht⟩
    | some c =>
      simp only [hc] at hx
      by_cases hname : name ∈ s.started
      · rw [if_pos hname] at hx
        cases hx
        exact .inl ⟨t, if_pos (ht.started name hname), ht⟩
      have hname' : name ∉ t.started := fun hmem => hnamet ⟨hmem, hname⟩
      rw [if_neg hname] at hx
      dsimp only
      rw [if_neg hname']
      exact (h.refines_setUp c).follows w { s with started := name :: s.started } _ a s' (ht.noted name) hs hx

/-- Runs with more fuel refine runs with less. -/
theorem level (hchain : chain.Ordinary) (h : n ≤ n') : Level chain n n' := by
  induction n generalizing n' with
  | zero => exact .zero n'
  | succ n ih =>
    obtain ⟨k, rfl⟩ : ∃ k, n' = k + 1 := ⟨n' - 1, by omega⟩
    have hlevel : Level chain n k := ih (by omega)
    exact ⟨hlevel.refines_run, hlevel.refines_execute, hlevel.refines_initClass,
      hlevel.refines_invoke hchain⟩

end Chain

end Jvm
