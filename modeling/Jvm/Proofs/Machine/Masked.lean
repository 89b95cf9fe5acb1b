import Jvm.Proofs.Machine.Simulation

/-!
# Covering up the faults of calls

With `Hooks.masked` an instruction calls what it calls, but a fault of the shape that ends a call or the
set-up of a class is covered up: the run ends there in another way. So what an instruction then still
raises is its own. That it calls nothing else is `Step.masks_execute`: it ends as before unless such a
fault has come out of a call, and there the other end takes its place.
-/

namespace Jvm

open Exec (Any)

namespace Exec

variable {α β : Type}

/-- Covers up a fault of the shape. -/
def masked (x : Exec α) : Exec α := fun w s =>
  match x w s with
  | .ok a s' => .ok a s'
  | .error e s' => .error (if e.isShape then .outOfFuel else e) s'

theorem masked_error {x : Exec α} {w : World} {s s' : State} {e : Stop} (h : x w s = .error e s') :
    x.masked w s = .error (if e.isShape then .outOfFuel else e) s' := by rw [masked, h]

/-- The second action ends as the first one does, or has covered up the fault of the shape that ended it. -/
def Masks (x y : Exec α) : Prop :=
  ∀ w s, y w s = x w s ∨ ∃ e s', x w s = .error e s' ∧ e.isShape = true ∧ y w s = .error .outOfFuel s'

namespace Masks

variable {x y : Exec α}

theorem refl (x : Exec α) : Masks x x := fun _ _ => .inl rfl

theorem masked (x : Exec α) : Masks x x.masked := by
  intro w s
  cases hx : x w s with
  | ok a s' => exact .inl (by rw [Exec.masked, hx])
  | error e s' =>
    by_cases he : e.isShape = true
    · exact .inr ⟨e, s', rfl, he, (masked_error hx).trans (by rw [if_pos he])⟩
    · exact .inl ((masked_error hx).trans (by rw [if_neg he]))

theorem bind {f g : α → Exec β} (hxy : Masks x y) (hfg : ∀ a, Masks (f a) (g a)) :
    Masks (x >>= f) (y >>= g) := by
  intro w s
  rw [bind_apply, bind_apply]
  rcases hxy w s with h | ⟨e, s', hx, he, hy⟩
  · rw [h]
    cases x w s with
    | ok a t => exact hfg a w t
    | error e t => exact .inl rfl
  · rw [hx, hy]
    exact .inr ⟨e, s', rfl, he, rfl⟩

end Masks

theorem Refines.masked {P : α → Prop} {x : Exec α} (h : Refines P x x) : Refines P x.masked x.masked := by
  have ok_of : ∀ {w s a s'}, x.masked w s = .ok a s' → x w s = .ok a s' := by
    intro w s a s' hx
    unfold Exec.masked at hx
    cases hres : x w s with
    | error e t => simp only [hres] at hx; cases hx
    | ok b t => simp only [hres] at hx; exact hx
  refine ⟨fun w s a s' hs hx => h.keeps w s a s' hs (ok_of hx), fun w s t a s' ht hs hx => ?_⟩
  obtain ⟨t', ht', hp⟩ | ⟨e, t', ht', he⟩ := h.follows w s t a s' ht hs (ok_of hx)
  · exact .inl ⟨t', by rw [Exec.masked, ht'], hp⟩
  · refine .inr ⟨_, t', masked_error ht', ?_⟩
    split
    · rename_i hshape
      cases e with
      | outOfFuel => cases he
      | error e =>
        cases e with
        | emulation f => cases f <;> first | cases he; done | cases hshape
        | _ => cases hshape
    · exact he

end Exec

/-- Calls and the set-up of classes with their faults of the shape covered up. -/
def Hooks.masked (hooks : Hooks) : Hooks where
  invoke c := (hooks.invoke c).masked
  initClass name := (hooks.initClass name).masked

theorem Hooks.Refines.masked {hooks : Hooks} (h : hooks.Refines hooks) : hooks.masked.Refines hooks.masked :=
  ⟨fun c => (h.invoke c).masked, fun name => (h.initClass name).masked⟩

theorem Exec.isShape_of_masked {α : Type} {x : Exec α} {w : World} {s s' : State} {e : Stop}
    (h : x.masked w s = .error e s') : e.isShape = false := by
  unfold Exec.masked at h
  cases hres : x w s with
  | ok => simp only [hres] at h; cases h
  | error e' t =>
    simp only [hres] at h
    cases h
    split
    · rfl
    · rename_i he
      exact Bool.eq_false_iff.2 he

/-- No fault of the shape comes out of them. -/
theorem Hooks.isShape_of_raises {hooks : Hooks} {w : World} {e : Stop} {s' : State}
    (h : hooks.masked.Raises w e s') : e.isShape = false := by
  obtain ⟨s, ⟨c, hc⟩ | ⟨name, hname⟩⟩ := h
  · exact Exec.isShape_of_masked hc
  · exact Exec.isShape_of_masked hname

namespace Step

variable {α β : Type}

/-- The second action masks the first one on every activation. -/
def Masks (m m' : Step α) : Prop := ∀ a, Exec.Masks (m a) (m' a)

namespace Masks

theorem refl (m : Step α) : Masks m m := fun a => .refl (m a)

theorem bind {m m' : Step α} {f g : α → Step β} (hm : Masks m m') (hfg : ∀ x, Masks (f x) (g x)) :
    Masks (m >>= f) (m' >>= g) := fun a => (hm a).bind fun p => hfg p.1 p.2

theorem lift {x y : Exec α} (h : Exec.Masks x y) : Masks (liftM x) (liftM y) :=
  fun _ => h.bind fun _ => .refl _

end Masks

variable {chain : Chain} {i : Instruction} (hooks : Hooks)

theorem masks_getStatic (m : MemberRef) : Exec.Masks (getStatic hooks m) (getStatic hooks.masked m) :=
  (Exec.Masks.masked (hooks.initClass m.owner)).bind fun _ => .refl _

theorem masks_putStatic (m : MemberRef) (v : Value) :
    Exec.Masks (putStatic hooks m v) (putStatic hooks.masked m v) :=
  (Exec.Masks.masked (hooks.initClass m.owner)).bind fun _ => .refl _

theorem masks_invoke (kind : InvokeKind) : Masks (invoke hooks kind i) (invoke hooks.masked kind i) := by
  unfold invoke
  refine .bind (.refl _) fun m => .bind (.refl _) fun d => .bind (.refl _) fun arguments => ?_
  by_cases hkind : kind = .static
  · rw [if_pos hkind, if_pos hkind]
    refine .bind (.lift (.masked (hooks.initClass m.owner))) fun _ => ?_
    exact .bind (.lift (.masked (hooks.invoke _))) fun _ => .refl _
  · rw [if_neg hkind, if_neg hkind]
    refine .bind (.refl _) fun receiver => ?_
    by_cases hnull : receiver.isNull = true
    · rw [if_pos hnull, if_pos hnull]
      exact .refl _
    · rw [if_neg hnull, if_neg hnull]
      exact .bind (.lift (.masked (hooks.invoke _))) fun _ => .refl _

theorem masks_executeSimple :
    Masks (executeSimple chain hooks i) (executeSimple chain hooks.masked i) := by
  obtain ⟨opcode, operand⟩ := i
  cases opcode
  case getStatic => exact .bind (.refl _) fun m => .bind (.lift (masks_getStatic hooks m)) fun _ => .refl _
  case putStatic =>
    exact .bind (.refl _) fun m => .bind (.refl _) fun v => .bind (.refl _) fun t => .bind (.refl _) fun v =>
      .lift (masks_putStatic hooks m v)
  case invoke kind => exact masks_invoke hooks kind
  case new => exact .bind (.refl _) fun c => .bind (.lift (.masked (hooks.initClass c))) fun _ => .refl _
  all_goals exact .refl _

theorem masks_execute : Masks (execute chain hooks i) (execute chain hooks.masked i) := by
  have hsimple : Masks (do executeSimple chain hooks i; return Next.advance)
      (do executeSimple chain hooks.masked i; return Next.advance) :=
    .bind (masks_executeSimple hooks) fun _ => .refl _
  obtain ⟨opcode, operand⟩ := i
  cases opcode
  case ifInt | ifIntCmp | ifRefCmp | ifNull | goto | tableSwitch | lookupSwitch | valueReturn | voidReturn =>
    exact .refl _
  all_goals exact hsimple

end Step

end Jvm
