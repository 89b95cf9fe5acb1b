import Jvm.Proofs.Machine.Simulation

/-!
# More fuel keeps what has ended

A run that was not cut off is the same with more fuel, whether it succeeds or fails (`Chain.extends_execute`).
So what a method comes to is its result for all but too little fuel.
-/

namespace Jvm

open Exec (Any)

namespace Exec

variable {α β : Type} {P : α → Prop} {Q : β → Prop} {x y : Exec α}

/-- The second action ends as the first one does, unless that is cut off. -/
def Extends {α : Type} (P : α → Prop) (x y : Exec α) : Prop :=
  ∀ w s, (∀ a s', x w s = .ok a s' → P a) ∧ (y w s = x w s ∨ ∃ s', x w s = .error .outOfFuel s')

namespace Extends

theorem of_eq (h : ∀ w s a s', x w s = .ok a s' → P a) : Extends P x x := fun w s => ⟨h w s, .inl rfl⟩

theorem pure {a : α} (ha : P a) : Extends P (Pure.pure a) (Pure.pure a) :=
  of_eq fun _ _ _ _ h => by cases h; exact ha

theorem failWith (e : Error) : Extends P (Exec.failWith e) (Exec.failWith e) :=
  of_eq fun _ _ _ _ h => by cases h

theorem fail (f : Fault) : Extends P (Exec.fail f) (Exec.fail f) := failWith _

theorem cutOff : Extends P (throw .outOfFuel) y := fun _ s => ⟨(fun _ _ h => by cases h), .inr ⟨s, rfl⟩⟩

theorem any (x : Exec α) : Extends Any x x := of_eq fun _ _ _ _ _ => trivial

theorem weaken {P' : α → Prop} (h : Extends P x y) (hP : ∀ a, P a → P' a) : Extends P' x y :=
  fun w s => ⟨fun a s' hx => hP a ((h w s).1 a s' hx), (h w s).2⟩

theorem bind {f g : α → Exec β} (hxy : Extends P x y) (hfg : ∀ a, P a → Extends Q (f a) (g a)) :
    Extends Q (x >>= f) (y >>= g) := by
  intro w s
  obtain ⟨hP, heq⟩ := hxy w s
  rw [bind_apply, bind_apply]
  cases hx : x w s with
  | error e s' =>
    refine ⟨(fun _ _ h => by cases h), ?_⟩
    obtain heq | ⟨t, ht⟩ := heq
    · rw [heq, hx]
      exact .inl rfl
    · rw [hx] at ht
      cases ht
      exact .inr ⟨_, rfl⟩
  | ok a s' =>
    obtain ⟨hQ, hres⟩ := hfg a (hP a s' hx) w s'
    obtain heq | ⟨t, ht⟩ := heq
    · rw [heq, hx]
      exact ⟨hQ, hres⟩
    · rw [hx] at ht
      cases ht

theorem withFrame (owner name : String) (line : Int32) (h : Extends Any x y) :
    Extends Any (Exec.withFrame owner name line x) (Exec.withFrame owner name line y) := by
  intro w s
  refine ⟨fun _ _ _ => trivial, ?_⟩
  rw [withFrame_apply, withFrame_apply]
  cases Exec.pushFrame owner name line w s with
  | error e t => exact .inl rfl
  | ok u t =>
    dsimp only
    obtain heq | ⟨t', ht⟩ := (h w t).2
    · rw [heq]
      exact .inl rfl
    · rw [ht]
      exact .inr ⟨_, rfl⟩

end Extends

/-- Nothing is known of objects, and calls are made for others that end as they do. -/
def extended : Setting where
  sound := False
  reflects _ := True
  searches _ := True
  writes := True
  calls := Extends Any
  setUps := Extends Any

theorem fits_extended (h : Heap) : h.Fits extended.toPremises :=
  ⟨fun id p _ => by cases p <;> first | trivial | exact nofun, nofun⟩

theorem Alike.extends (h : Alike extended P x y) : Extends P x y := by
  induction h with
  | pure ha => exact .pure ha
  | failWith e => exact .failWith e
  | bind _ _ ihx ihf => exact ihx.bind ihf
  | weaken _ hP ih => exact ih.weaken hP
  | world => exact .of_eq fun _ _ _ _ _ _ _ _ _ _ => ⟨trivial, fun _ _ _ _ _ _ => trivial⟩
  | get _ _ ih => exact fun w s => ih s (fits_extended _) w s
  | @ofHeap _ _ x f hx hf =>
    refine .of_eq fun w s a s' h => ?_
    rw [hx] at h
    cases hres : f s.heap with
    | error e =>
      simp only [hres] at h
      cases h
    | ok p =>
      simp only [hres] at h
      cases h
      exact (hf s.heap p.1 p.2 (fits_extended _) hres).1
  | clock | putStatic | resolveStatic => exact .any _
  | call h => exact h
  | setUp h => exact h

end Exec

namespace Chain

open Exec (Extends)

variable {chain : Chain} {n n' : Nat}

/-- With more fuel, all that runs ends as it did. -/
structure Extended (chain : Chain) (n n' : Nat) : Prop where
  run : ∀ owner m code pc a, Extends Any (chain.run owner m code n pc a) (chain.run owner m code n' pc a)
  execute : ∀ owner m arguments receiver, Extends Any (chain.executeWithin n owner m arguments receiver)
    (chain.executeWithin n' owner m arguments receiver)
  initClass : ∀ name, Extends Any (chain.initClassWithin n name) (chain.initClassWithin n' name)
  invoke : ∀ c, Extends Any (chain.invokeWithin n c) (chain.invokeWithin n' c)

theorem Extended.zero (n' : Nat) : Extended chain 0 n' where
  run _ _ _ _ _ := by
    rw [Chain.run]
    exact .cutOff
  execute _ _ _ _ := by
    rw [executeWithin]
    exact .cutOff
  initClass _ := by
    rw [initClassWithin]
    exact .cutOff
  invoke _ := by
    rw [invokeWithin]
    exact .cutOff

namespace Extended

variable (h : Extended chain n n')

include h

theorem extends_run (owner : ClassFile) (m : Method) (code : Array Instruction) (pc : Nat) (a : Activation) :
    Extends Any (chain.run owner m code (n + 1) pc a) (chain.run owner m code (n' + 1) pc a) := by
  rw [Chain.run, Chain.run]
  split
  · exact .fail _
  have hhooks : Hooks.Alike Exec.extended ⟨invokeWithin chain n, initClassWithin chain n⟩
      ⟨invokeWithin chain n', initClassWithin chain n'⟩ := ⟨h.invoke, h.initClass⟩
  refine (Extends.any Exec.tick).bind fun _ _ =>
    (Step.alike_execute hhooks (fun _ _ => trivial) (fun _ => trivial) a).extends.bind fun p _ => ?_
  obtain ⟨next, a'⟩ := p
  cases next with
  | advance => exact h.run _ _ _ _ _
  | jump target =>
    dsimp only
    split
    · exact h.run _ _ _ _ _
    · exact .fail _
  | finish v => exact .any _

theorem extends_execute (owner : ClassFile) (m : Method) (arguments : List Value) (receiver : Option Value) :
    Extends Any (chain.executeWithin (n + 1) owner m arguments receiver)
      (chain.executeWithin (n' + 1) owner m arguments receiver) := by
  rw [executeWithin, executeWithin]
  split
  · exact .fail _
  refine (Extends.any _).bind fun d _ => ?_
  split
  · exact .fail _
  exact .withFrame _ _ _ ((Extends.any _).bind fun w _ => (Extends.any _).bind fun a _ => h.run _ _ _ _ _)

theorem extends_setUp (c : ClassFile) : Extends Any (initAbove chain n c >>= fun _ => initSelf chain n c)
    (initAbove chain n' c >>= fun _ => initSelf chain n' c) := by
  unfold initAbove initSelf
  refine Extends.bind (P := Any) ?_ fun _ _ => ?_
  · split
    · exact h.initClass _
    · exact .any _
  · split
    · exact (h.execute _ _ _ _).bind fun _ _ => .any _
    · exact .any _

theorem extends_initClass (name : String) :
    Extends Any (chain.initClassWithin (n + 1) name) (chain.initClassWithin (n' + 1) name) := by
  intro w s
  refine ⟨fun _ _ _ => trivial, ?_⟩
  rw [initClassWithin_apply, initClassWithin_apply]
  cases w.program.get? name with
  | none => exact .inl rfl
  | some c =>
    dsimp only
    by_cases hname : name ∈ s.started
    · rw [if_pos hname, if_pos hname]
      exact .inl rfl
    · rw [if_neg hname, if_neg hname]
      exact (h.extends_setUp c w _).2

theorem extends_invoke (hchain : chain.Ordinary) (c : Call) :
    Extends Any (chain.invokeWithin (n + 1) c) (chain.invokeWithin (n' + 1) c) := by
  rw [invokeWithin, invokeWithin]
  have hanswered : c.Answered Exec.extended (executeWithin chain n) (executeWithin chain n')
      (invokeWithin chain n) (invokeWithin chain n') :=
    ⟨fun _ _ _ _ _ => h.execute _ _ _ _, fun _ next _ => h.invoke next⟩
  refine (alike_resolveWith hchain hanswered).extends.bind fun v _ => ?_
  split
  · exact .any _
  · exact .fail _

end Extended

theorem extended (hchain : chain.Ordinary) (h : n ≤ n') : Extended chain n n' := by
  induction n generalizing n' with
  | zero => exact .zero n'
  | succ n ih =>
    obtain ⟨k, rfl⟩ : ∃ k, n' = k + 1 := ⟨n' - 1, by omega⟩
    have hk : Extended chain n k := ih (by omega)
    exact ⟨hk.extends_run, hk.extends_execute, hk.extends_initClass, hk.extends_invoke hchain⟩

/-- A method that is not cut off comes to the same with more fuel. -/
theorem executeWithin_eq (hchain : chain.Ordinary) (h : n ≤ n') {owner : ClassFile} {m : Method}
    {arguments : List Value} {receiver : Option Value} {w : World} {s : State}
    (hends : ∀ s', chain.executeWithin n owner m arguments receiver w s ≠ .error .outOfFuel s') :
    chain.executeWithin n' owner m arguments receiver w s = chain.executeWithin n owner m arguments receiver w s :=
  (((extended hchain h).execute owner m arguments receiver w s).2).resolve_right fun ⟨s', hs'⟩ => hends s' hs'

/-- A method that is not cut off with no more fuel than the world has is executed so. -/
theorem execute_eq_within (hchain : chain.Ordinary) {owner : ClassFile} {m : Method} {arguments : List Value}
    {receiver : Option Value} {w : World} {s : State} (h : n ≤ w.fuel)
    (hends : ∀ s', chain.executeWithin n owner m arguments receiver w s ≠ .error .outOfFuel s') :
    chain.execute owner m arguments receiver w s = chain.executeWithin n owner m arguments receiver w s := by
  rw [execute, Exec.bind_apply, Exec.read_apply]
  exact executeWithin_eq hchain h hends

/-- What is cut off with some fuel is cut off with less. -/
theorem exists_executeWithin_outOfFuel (hchain : chain.Ordinary) (h : n ≤ n') {owner : ClassFile} {m : Method}
    {arguments : List Value} {receiver : Option Value} {w : World} {s t : State}
    (hcut : chain.executeWithin n' owner m arguments receiver w s = .error .outOfFuel t) :
    ∃ s', chain.executeWithin n owner m arguments receiver w s = .error .outOfFuel s' := by
  refine Classical.byContradiction fun hends => ?_
  have heq := executeWithin_eq hchain h fun s' hs' => hends ⟨s', hs'⟩
  exact hends ⟨t, heq.symm.trans hcut⟩

end Chain

end Jvm
