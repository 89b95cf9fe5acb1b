import Jvm.Flow.Transfer
import Jvm.Machine.Arithmetic
import Jvm.Proofs.Machine.Blame

/-!
# What stack operations take and push

`OperandStack.Does n post m`: on a stack of at least `n` entries the operation takes `n` of them and puts
in their place what `post` says; the rest stays, and a failure is no fault of the shape. The arithmetic of
the machine takes and pushes what the analysis thinks.
-/

namespace Jvm

namespace OperandStack

def Does {α : Type} (n : Nat) (post : α → List Value → Prop) (m : StackM α) : Prop :=
  ∀ s, n ≤ s.values.length → match m s with
    | .ok x s' => ∃ out, s'.values = out ++ s.values.drop n ∧ post x out
    | .error f _ => f.isShape = false

/-- Takes `n` entries and pushes nothing. -/
abbrev Takes {α : Type} (n : Nat) (m : StackM α) : Prop := Does n (fun _ out => out = []) m

/-- Takes `n` entries and pushes one of the given words. -/
abbrev Pushes {α : Type} (n : Nat) (w : Width) (m : StackM α) : Prop :=
  Does n (fun _ out => ∃ v : Value, out = [v] ∧ v.width = w) m

variable {α β : Type} {n k : Nat}

namespace Does

theorem pure {post : α → List Value → Prop} (x : α) (h : post x []) : Does 0 post (Pure.pure x) :=
  fun s _ => ⟨[], by rw [List.nil_append, List.drop_zero], h⟩

theorem throw {post : α → List Value → Prop} {f : Fault} (hf : f.isShape = false) :
    Does n post (MonadExcept.throw f : StackM α) := fun _ _ => hf

theorem mono {post post' : α → List Value → Prop} {m : StackM α} (h : Does n post m)
    (hpost : ∀ x out, post x out → post' x out) : Does n post' m := by
  intro s hs
  have h1 := h s hs
  cases hres : m s with
  | error f t =>
    rw [hres] at h1
    exact h1
  | ok x t =>
    rw [hres] at h1
    exact h1.imp fun out ho => ⟨ho.1, hpost x out ho.2⟩

/-- The first operation takes `k` of the `n + k` entries. -/
theorem bind {post : β → List Value → Prop} {m : StackM α} {f : α → StackM β} (hm : Takes k m)
    (hf : ∀ x, Does n post (f x)) : Does (n + k) post (m >>= f) := by
  intro s hs
  have h1 := hm s (by omega)
  rw [bind_apply]
  cases hres : m s with
  | error f t =>
    rw [hres] at h1
    exact h1
  | ok x t =>
    rw [hres] at h1
    obtain ⟨out, ht, rfl⟩ := h1
    rw [List.nil_append] at ht
    have h2 := hf x t (by rw [ht, List.length_drop]; omega)
    dsimp only
    rw [ht, List.drop_drop, Nat.add_comm k n] at h2
    exact h2

end Does

theorem takes_pop : Takes 1 pop := by
  rintro ⟨limit, values, depth, hdepth⟩ hs
  cases values with
  | nil => cases hs
  | cons v rest => exact ⟨[], rfl, rfl⟩

theorem does_push (v : Value) : Does 0 (fun _ out => out = [v]) (push v) := by
  intro s _
  by_cases hv : v = .void ∨ v = .top
  · have h : push v s = .error (v.mismatch "push" "value") s := if_pos hv
    rw [h]
    rfl
  by_cases hlimit : s.limit ≤ s.depth
  · have h : push v s = .error (.stackOverflow s.limit) s := (if_neg hv).trans (if_pos hlimit)
    rw [h]
    rfl
  · unfold push
    rw [if_neg hv, if_neg hlimit]
    exact ⟨[v], rfl, rfl⟩

theorem pushes_push {v : Value} {w : Width} (hw : v.width = w) : Pushes 0 w (push v) :=
  (does_push v).mono fun _ _ h => ⟨v, h, hw⟩

theorem takes_popAs {read : Value → Except Fault α} (hread : ∀ v, Aloof (read v)) :
    Takes 1 (popAs read) := by
  refine Does.bind (n := 0) takes_pop fun v => ?_
  cases hres : read v with
  | ok a => exact .pure a rfl
  | error f => exact .throw ((hread v).plain f hres)

section

variable (name : String)

theorem takes_popInt : Takes 1 (popInt name) := takes_popAs (Value.aloof_asInt name)

theorem takes_popLong : Takes 1 (popLong name) := takes_popAs (Value.aloof_asLong name)

theorem takes_popFloat : Takes 1 (popFloat name) := takes_popAs (Value.aloof_asFloat name)

theorem takes_popDouble : Takes 1 (popDouble name) := takes_popAs (Value.aloof_asDouble name)

theorem takes_popReference : Takes 1 (popReference name) := takes_popAs (Value.aloof_asReference name)

theorem takes_popN (n : Nat) : Takes n (popN n) := by
  intro s hs
  unfold popN
  rw [if_neg (by rw [s.depth_eq]; omega)]
  exact ⟨[], rfl, rfl⟩

/-! ### Arithmetic -/

theorem pushes_arith (op : ArithOp) (t : NumType) : Pushes 2 (Flow.numWidth t) (arith name op t) := by
  cases t with
  | int =>
    refine Does.bind (n := 1) (takes_popInt name) fun b => Does.bind (n := 0) (takes_popInt name) fun a => ?_
    cases hres : op.onInt a b with
    | ok v => exact pushes_push rfl
    | error f => exact .throw ((op.aloof_onInt a b).plain f hres)
  | long =>
    refine Does.bind (n := 1) (takes_popLong name) fun b => Does.bind (n := 0) (takes_popLong name) fun a => ?_
    cases hres : op.onLong a b with
    | ok v => exact pushes_push rfl
    | error f => exact .throw ((op.aloof_onLong a b).plain f hres)
  | float =>
    exact Does.bind (n := 1) (takes_popFloat name) fun _ => Does.bind (n := 0) (takes_popFloat name) fun _ =>
      pushes_push rfl
  | double =>
    exact Does.bind (n := 1) (takes_popDouble name) fun _ => Does.bind (n := 0) (takes_popDouble name) fun _ =>
      pushes_push rfl

theorem pushes_negate (t : NumType) : Pushes 1 (Flow.numWidth t) (negate name t) := by
  cases t
  case int => exact Does.bind (n := 0) (takes_popInt name) fun _ => pushes_push rfl
  case long => exact Does.bind (n := 0) (takes_popLong name) fun _ => pushes_push rfl
  case float => exact Does.bind (n := 0) (takes_popFloat name) fun _ => pushes_push rfl
  case double => exact Does.bind (n := 0) (takes_popDouble name) fun _ => pushes_push rfl

theorem pushes_shift (op : ShiftOp) (size : IntSize) :
    Pushes 2 (Flow.intWidth size) (shift name op size) := by
  refine size.casesOn ?_ ?_
  · exact Does.bind (n := 1) (takes_popInt name) fun _ => Does.bind (n := 0) (takes_popInt name) fun _ =>
      pushes_push rfl
  · exact Does.bind (n := 1) (takes_popInt name) fun _ => Does.bind (n := 0) (takes_popLong name) fun _ =>
      pushes_push rfl

theorem pushes_bits (op : BitOp) (size : IntSize) :
    Pushes 2 (Flow.intWidth size) (bits name op size) := by
  refine size.casesOn ?_ ?_
  · exact Does.bind (n := 1) (takes_popInt name) fun _ => Does.bind (n := 0) (takes_popInt name) fun _ =>
      pushes_push rfl
  · exact Does.bind (n := 1) (takes_popLong name) fun _ => Does.bind (n := 0) (takes_popLong name) fun _ =>
      pushes_push rfl

theorem pushes_convert (c : Conversion) : Pushes 1 (Flow.conversionWidth c) (convert name c) := by
  cases c
  case i2l | i2f | i2d | i2b | i2c | i2s =>
    exact Does.bind (n := 0) (takes_popInt name) fun _ => pushes_push rfl
  case l2i | l2f | l2d => exact Does.bind (n := 0) (takes_popLong name) fun _ => pushes_push rfl
  case f2i | f2l | f2d => exact Does.bind (n := 0) (takes_popFloat name) fun _ => pushes_push rfl
  case d2i | d2l | d2f => exact Does.bind (n := 0) (takes_popDouble name) fun _ => pushes_push rfl

theorem pushes_compareLong : Pushes 2 .single (compareLong name) :=
  Does.bind (n := 1) (takes_popLong name) fun _ => Does.bind (n := 0) (takes_popLong name) fun _ =>
    pushes_push rfl

theorem pushes_compareFloat (nanGreater : Bool) : Pushes 2 .single (compareFloat name nanGreater) :=
  Does.bind (n := 1) (takes_popFloat name) fun _ => Does.bind (n := 0) (takes_popFloat name) fun _ =>
    pushes_push rfl

theorem pushes_compareDouble (nanGreater : Bool) : Pushes 2 .single (compareDouble name nanGreater) :=
  Does.bind (n := 1) (takes_popDouble name) fun _ => Does.bind (n := 0) (takes_popDouble name) fun _ =>
    pushes_push rfl

theorem takes_testZero (c : Cond) : Takes 1 (testZero name c) :=
  Does.bind (n := 0) (takes_popInt name) fun _ => .pure _ rfl

theorem takes_testInts (c : Cond) : Takes 2 (testInts name c) :=
  Does.bind (n := 1) (takes_popInt name) fun _ => Does.bind (n := 0) (takes_popInt name) fun _ =>
    .pure _ rfl

end

end OperandStack

end Jvm
