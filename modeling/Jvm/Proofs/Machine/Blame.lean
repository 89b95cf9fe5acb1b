import Jvm.Proofs.Machine.Aloof

/-!
# Who raises the faults of a stack

Four faults say that a body was not fit to be run: the stack was too short, an entry would have been
split, or control left the code (`Fault.isShape`). They are faults of a frame, which reading values,
fields and objects never raises, so an action raises one only if a call or the set-up of a class within
it did (`Exec.Blames`).
-/

namespace Jvm

/-- The stack did not have the shape that an instruction needs, or there was no instruction. -/
def Fault.isShape : Fault → Bool
  | stackUnderflow | stackShape _ | fellOffEnd .. | invalidBranchTarget _ => true
  | _ => false

def Stop.isShape : Stop → Bool
  | error (.emulation f) => f.isShape
  | _ => false

theorem Fault.isFrame_of_isShape {f : Fault} (h : f.isShape = true) : f.isFrame = true := by
  cases f <;> first | rfl | cases h

theorem Stop.isFrame_of_isShape {e : Stop} (h : e.isShape = true) : e.isFrame = true := by
  unfold isShape at h
  split at h
  · exact Fault.isFrame_of_isShape h
  · cases h

/-- A call or the set-up of a class ended that way. -/
def Hooks.Raises (hooks : Hooks) (w : World) (e : Stop) (s' : State) : Prop :=
  ∃ s, (∃ c, hooks.invoke c w s = .error e s') ∨ ∃ name, hooks.initClass name w s = .error e s'

/-- The result is no fault of the shape. -/
def Plain {α : Type} (r : Except Fault α) : Prop := ∀ f, r = .error f → f.isShape = false

namespace Plain

variable {α β : Type} {r : Except Fault α}

theorem ok (a : α) : Plain (.ok a) := nofun

theorem error {f : Fault} (hf : f.isShape = false) : Plain (.error f : Except Fault α) := by
  intro g hg
  cases hg
  exact hf

theorem bind {g : α → Except Fault β} (hr : Plain r) (hg : ∀ a, r = .ok a → Plain (g a)) :
    Plain (r >>= g) := by
  cases r with
  | ok a => exact hg a rfl
  | error f => exact error (hr f rfl)

end Plain

theorem Aloof.plain {α : Type} {r : Except Fault α} (h : Aloof r) : Plain r := by
  intro f hf
  cases hshape : f.isShape with
  | false => rfl
  | true => rw [← h f hf, Fault.isFrame_of_isShape hshape]

/-! ### Local variables -/

namespace Locals

variable (l : Locals) (n : Nat)

theorem plain_check (words : Nat) : Plain (l.check n words) := by
  unfold check
  split
  · exact .error rfl
  · exact .ok _

theorem plain_load : Plain (l.load n) := by
  refine (l.plain_check n 1).bind fun _ _ => ?_
  split
  · exact .error rfl
  · exact .error rfl
  · exact .ok _

theorem plain_store (v : Value) : Plain (l.store n v) := (l.plain_check n _).bind fun _ _ => .ok _

end Locals

/-! ### Actions -/

namespace Exec

theorem isShape_ofExcept {α : Type} {r : Except Fault α} (hr : Plain r) {w : World} {s s' : State}
    {e : Stop} (h : (liftM r : Exec α) w s = .error e s') : e.isShape = false := by
  cases r with
  | ok => cases h
  | error f => cases h; exact hr f rfl

/-- A fault of the shape comes from the hooks. -/
def Blames {α : Type} (hooks : Hooks) (x : Exec α) : Prop :=
  ∀ w s e s', x w s = .error e s' → e.isShape = true → hooks.Raises w e s'

variable {hooks : Hooks} {α β : Type}

theorem Aloof.blames {x : Exec α} (hx : x.Aloof) : Blames hooks x := by
  intro w s e s' h he
  cases (hx w s e s' h).symm.trans (Stop.isFrame_of_isShape he)

namespace Blames

theorem invoke (c : Call) : Blames hooks (hooks.invoke c) := fun _ s _ _ h _ => ⟨s, .inl ⟨c, h⟩⟩

theorem initClass (name : String) : Blames hooks (hooks.initClass name) :=
  fun _ s _ _ h _ => ⟨s, .inr ⟨name, h⟩⟩

theorem bind {x : Exec α} {f : α → Exec β} (hx : Blames hooks x) (hf : ∀ a, Blames hooks (f a)) :
    Blames hooks (x >>= f) := by
  intro w s e s' h hshape
  rw [bind_apply] at h
  cases hres : x w s with
  | ok a t =>
    simp only [hres] at h
    exact hf a w t e s' h hshape
  | error e' t =>
    simp only [hres] at h
    cases h
    exact hx w s e s' hres hshape

theorem ofExcept {r : Except Fault α} (hr : Plain r) : Blames hooks (liftM r : Exec α) := by
  intro w s e s' h hshape
  rw [isShape_ofExcept hr h] at hshape
  cases hshape

end Blames

end Exec

namespace Step

open Exec (Blames)

variable {hooks : Hooks}

theorem blames_getStatic (m : MemberRef) : Blames hooks (getStatic hooks m) := by
  refine (Blames.initClass m.owner).bind fun _ => (aloof_resolveStatic m).blames.bind fun p => ?_
  refine Exec.Aloof.get.blames.bind fun s => ?_
  split
  · exact (Exec.Aloof.pure _).blames
  split
  · exact (aloof_constantValue _).blames
  · exact ((Exec.Aloof.ofExcept (aloof_fieldType _)).bind fun _ => .pure _).blames

theorem blames_putStatic (m : MemberRef) (v : Value) : Blames hooks (putStatic hooks m v) :=
  (Blames.initClass m.owner).bind fun _ =>
    ((aloof_resolveStatic m).bind fun _ => .never fun _ _ => ⟨_, _, rfl⟩).blames

end Step

end Jvm
