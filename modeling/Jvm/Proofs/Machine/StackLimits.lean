import Jvm.Proofs.Machine.Intents
import Jvm.Proofs.Machine.OrderlyStacks

/-!
# Stacks and their limit

`operations_respect`: what holds of a stack after any operations on it, those that fail included. It never holds
`void` or `top`; a failure for want of entries, of room or of whole values leaves it as it was; and it stays within
its limit. The last two have one exception: a copy that goes over the limit fails when it has been made, and so it
stays (`Spills`). By the words of such copies, and no more, a stack may be over its limit.
-/

namespace Jvm

/-- The faults of a stack that lacks entries, room or whole values. -/
def Fault.isStack : Fault → Bool
  | stackUnderflow | stackOverflow _ | stackShape _ => true
  | _ => false

/-- An operation on a stack. -/
inductive StackOp where
  | push (v : Value)
  | pop
  | peek
  | popN (n : Nat)
  | popInt (operation : String)
  | popLong (operation : String)
  | popFloat (operation : String)
  | popDouble (operation : String)
  | popReference (operation : String)
  | popWords (instruction : String) (n : Nat)
  | dup (instruction : String) (top under : Nat)
  | swap

namespace OperandStack

/-- The fault, if there is one, and the stack that is left. -/
def ending {α : Type} (m : StackM α) (s : OperandStack) : Option Fault × OperandStack :=
  match m s with
  | .ok _ t => (none, t)
  | .error f t => (some f, t)

end OperandStack

namespace StackOp

/-- What comes of the operation, its result apart. -/
def apply : StackOp → OperandStack → Option Fault × OperandStack
  | push v => OperandStack.ending (OperandStack.push v)
  | pop => OperandStack.ending OperandStack.pop
  | peek => OperandStack.ending OperandStack.peek
  | popN n => OperandStack.ending (OperandStack.popN n)
  | popInt operation => OperandStack.ending (OperandStack.popInt operation)
  | popLong operation => OperandStack.ending (OperandStack.popLong operation)
  | popFloat operation => OperandStack.ending (OperandStack.popFloat operation)
  | popDouble operation => OperandStack.ending (OperandStack.popDouble operation)
  | popReference operation => OperandStack.ending (OperandStack.popReference operation)
  | popWords instruction n => OperandStack.ending (OperandStack.popWords instruction n)
  | dup instruction top under => OperandStack.ending (OperandStack.dup instruction top under)
  | swap => OperandStack.ending OperandStack.swap

/-- The words that the operation copies though there is no room for them. -/
def spill (op : StackOp) (s : OperandStack) : Nat :=
  match op, (op.apply s).1 with
  | dup _ top _, some (.stackOverflow _) => top
  | _, _ => 0

end StackOp

/-! ### What the readers of values refuse -/

namespace Value

variable {name : String} {v : Value} {f : Fault}

theorem isStack_of_asInt (h : v.asInt name = .error f) : f.isStack = false := by
  cases v <;> cases h <;> rfl

theorem isStack_of_asLong (h : v.asLong name = .error f) : f.isStack = false := by
  cases v <;> cases h <;> rfl

theorem isStack_of_asFloat (h : v.asFloat name = .error f) : f.isStack = false := by
  cases v <;> cases h <;> rfl

theorem isStack_of_asDouble (h : v.asDouble name = .error f) : f.isStack = false := by
  cases v <;> cases h <;> rfl

theorem isStack_of_asReference (h : v.asReference name = .error f) : f.isStack = false := by
  cases v <;> cases h <;> rfl

end Value

namespace OperandStack

/-! ### One operation -/

/-- How an operation on `s` ends that keeps to the rules. -/
structure Respects (s : OperandStack) (e : Option Fault × OperandStack) : Prop where
  limit : e.2.limit = s.limit
  values : ∀ v ∈ e.2.values, v ∈ s.values ∨ v ≠ .void ∧ v ≠ .top
  length : e.2.values.length ≤ max s.values.length s.limit
  unchanged : ∀ f, e.1 = some f → f.isStack = true → e.2 = s

/-- A copy that goes over the limit: it fails and stays. -/
structure Spills (instruction : String) (top under : Nat) (s : OperandStack) (e : Option Fault × OperandStack) :
    Prop where
  fault : e.1 = some (.stackOverflow s.limit)
  limit : e.2.limit = s.limit
  exceeds : s.limit < e.2.values.length
  values : Words.dupWords instruction top under s.values = .ok e.2.values

variable {α : Type} {s t : OperandStack} {f : Fault} {m : StackM α}

theorem Respects.of_error (h : m s = .error f s) : Respects s (ending m s) := by
  rw [ending, h]
  exact ⟨rfl, fun _ => .inl, Nat.le_max_left _ _, fun _ _ _ => rfl⟩

/-- What is left are entries of the stack, and no more of them. -/
theorem Respects.of_ok {x : α} (h : m s = .ok x t) (hlimit : t.limit = s.limit)
    (hvalues : ∀ v ∈ t.values, v ∈ s.values) (hlength : t.values.length ≤ s.values.length) :
    Respects s (ending m s) := by
  rw [ending, h]
  exact ⟨hlimit, fun v hv => .inl (hvalues v hv), Nat.le_trans hlength (Nat.le_max_left _ _), nofun⟩

theorem respects_push (v : Value) (s : OperandStack) : Respects s (ending (push v) s) := by
  by_cases hv : v = .void ∨ v = .top
  · exact .of_error (if_pos hv)
  by_cases hfull : s.limit ≤ s.depth
  · exact .of_error ((if_neg hv).trans (if_pos hfull))
  · rw [ending, push, if_neg hv, if_neg hfull]
    refine ⟨rfl, fun u hu => ?_, ?_, nofun⟩
    · rcases List.mem_cons.1 hu with rfl | hu
      · exact .inr (not_or.1 hv)
      · exact .inl hu
    · have hdepth := s.depth_eq
      simp only [List.length_cons]
      omega

theorem pop_cases (s : OperandStack) : pop s = .error .stackUnderflow s ∨
    ∃ v t, pop s = .ok v t ∧ t.limit = s.limit ∧ s.values = v :: t.values := by
  obtain ⟨limit, values, depth, hdepth⟩ := s
  cases values with
  | nil => exact .inl rfl
  | cons v rest => exact .inr ⟨v, _, rfl, rfl, rfl⟩

theorem respects_pop (s : OperandStack) : Respects s (ending pop s) := by
  rcases pop_cases s with hpop | ⟨v, t, hpop, hlimit, hvalues⟩
  · exact .of_error hpop
  · exact .of_ok hpop hlimit (fun u hu => hvalues ▸ List.mem_cons_of_mem _ hu) (hvalues ▸ Nat.le_succ _)

theorem respects_popAs {read : Value → Except Fault α} (hread : ∀ v f, read v = .error f → f.isStack = false)
    (s : OperandStack) : Respects s (ending (popAs read) s) := by
  have happly : popAs read s = _ := OperandStack.bind_apply _ _ s
  rcases pop_cases s with hpop | ⟨v, t, hpop, hlimit, hvalues⟩
  · rw [hpop] at happly
    exact .of_error happly
  rw [hpop] at happly
  have hmem : ∀ u ∈ t.values, u ∈ s.values := fun u hu => hvalues ▸ List.mem_cons_of_mem _ hu
  have hlength : t.values.length ≤ s.values.length := hvalues ▸ Nat.le_succ _
  dsimp only at happly
  cases hres : read v with
  | ok a =>
    rw [hres] at happly
    exact .of_ok happly hlimit hmem hlength
  | error f =>
    -- The entry is gone, but this is no fault of the stack.
    have herror : popAs read s = .error f t := by rw [happly, hres]; rfl
    rw [ending, herror]
    refine ⟨hlimit, fun u hu => .inl (hmem u hu), Nat.le_trans hlength (Nat.le_max_left _ _), fun f' hf hstack => ?_⟩
    cases hf
    rw [hread v f hres] at hstack
    cases hstack

theorem respects_peek (s : OperandStack) : Respects s (ending peek s) := by
  obtain ⟨limit, values, depth, hdepth⟩ := s
  cases values with
  | nil => exact .of_error rfl
  | cons v rest => exact .of_ok rfl rfl (fun _ => id) (Nat.le_refl _)

theorem respects_popN (n : Nat) (s : OperandStack) : Respects s (ending (popN n) s) := by
  by_cases hshort : s.depth < n
  · exact .of_error (if_pos hshort)
  · refine .of_ok (if_neg hshort) rfl (fun _ => List.mem_of_mem_drop) ?_
    rw [List.length_drop]
    exact Nat.sub_le _ _

theorem popWords_cases (instruction : String) (n : Nat) (s : OperandStack) :
    (∃ f, popWords instruction n s = .error f s) ∨
      ∃ t taken, popWords instruction n s = .ok () t ∧ t.limit = s.limit ∧ s.values = taken ++ t.values := by
  unfold popWords
  split
  · exact .inl ⟨_, rfl⟩
  · exact .inr ⟨_, _, rfl, rfl, Words.append_of_takeWords ‹_›⟩

theorem respects_popWords (instruction : String) (n : Nat) (s : OperandStack) :
    Respects s (ending (popWords instruction n) s) := by
  rcases popWords_cases instruction n s with ⟨f, hf⟩ | ⟨t, taken, ht, hlimit, hvalues⟩
  · exact .of_error hf
  · refine .of_ok ht hlimit (fun v hv => hvalues ▸ List.mem_append_right _ hv) ?_
    rw [hvalues, List.length_append]
    exact Nat.le_add_left _ _

theorem swap_cases (s : OperandStack) : (∃ f, swap s = .error f s) ∨
    ∃ t, swap s = .ok () t ∧ t.limit = s.limit ∧ Words.swap s.values = .ok t.values := by
  unfold swap
  split
  · exact .inl ⟨_, rfl⟩
  · exact .inr ⟨_, rfl, rfl, ‹_›⟩

theorem respects_swap (s : OperandStack) : Respects s (ending swap s) := by
  rcases swap_cases s with ⟨f, hf⟩ | ⟨t, ht, hlimit, hvalues⟩
  · exact .of_error hf
  · exact .of_ok ht hlimit (fun v hv => Words.mem_of_swap hvalues hv) (Nat.le_of_eq (Words.length_swap hvalues))

theorem dupUnchecked_cases (instruction : String) (top under : Nat) (s : OperandStack) :
    (∃ f, dupUnchecked instruction top under s = .error f s) ∨
      ∃ t, dupUnchecked instruction top under s = .ok () t ∧ t.limit = s.limit ∧
        Words.dupWords instruction top under s.values = .ok t.values := by
  unfold dupUnchecked
  split
  · exact .inr ⟨_, rfl, rfl, ‹_›⟩
  · exact .inl ⟨_, rfl⟩
  · exact .inl ⟨_, rfl⟩

/-- The limit is looked at when the copy has been made. -/
theorem respects_dup_or_spills (instruction : String) (top under : Nat) (s : OperandStack) :
    Respects s (ending (dup instruction top under) s) ∨
      Spills instruction top under s (ending (dup instruction top under) s) := by
  have hdup : dup instruction top under s = _ := OperandStack.bind_apply _ _ s
  rcases dupUnchecked_cases instruction top under s with ⟨f, hf⟩ | ⟨t, ht, hlimit, hvalues⟩
  · rw [hf] at hdup
    exact .inl (.of_error hdup)
  rw [ht] at hdup
  rw [ending, hdup]
  dsimp only
  unfold checkLimit
  by_cases hover : t.limit < t.depth
  · rw [if_pos hover, hlimit]
    refine .inr ⟨rfl, hlimit, ?_, hvalues⟩
    rw [← hlimit, ← t.depth_eq]
    exact hover
  · rw [if_neg hover]
    refine .inl ⟨hlimit, fun v hv => .inl (Words.mem_of_dupWords hvalues hv), ?_, nofun⟩
    have hdepth := t.depth_eq
    dsimp only
    omega

end OperandStack

namespace StackOp

variable {instruction : String} {top under : Nat} {s : OperandStack}

open OperandStack

/-- Every operation keeps to the rules, or it is a copy that goes over the limit. -/
theorem apply_cases (op : StackOp) (s : OperandStack) :
    Respects s (op.apply s) ∨
      ∃ instruction top under, op = .dup instruction top under ∧ Spills instruction top under s (op.apply s) := by
  cases op with
  | push v => exact .inl (respects_push v s)
  | pop => exact .inl (respects_pop s)
  | peek => exact .inl (respects_peek s)
  | popN n => exact .inl (respects_popN n s)
  | popInt _ => exact .inl (respects_popAs (fun _ _ => Value.isStack_of_asInt) s)
  | popLong _ => exact .inl (respects_popAs (fun _ _ => Value.isStack_of_asLong) s)
  | popFloat _ => exact .inl (respects_popAs (fun _ _ => Value.isStack_of_asFloat) s)
  | popDouble _ => exact .inl (respects_popAs (fun _ _ => Value.isStack_of_asDouble) s)
  | popReference _ => exact .inl (respects_popAs (fun _ _ => Value.isStack_of_asReference) s)
  | popWords instruction n => exact .inl (respects_popWords instruction n s)
  | dup instruction top under =>
    exact (respects_dup_or_spills instruction top under s).imp_right fun h => ⟨_, _, _, rfl, h⟩
  | swap => exact .inl (respects_swap s)

theorem length_of_spills {e : Option Fault × OperandStack} (h : Spills instruction top under s e) :
    e.2.values.length ≤ s.values.length + top := by
  obtain ⟨copied, below, htop⟩ : ∃ copied below, Words.takeWords instruction top s.values = .ok (copied, below) := by
    have hvalues := h.values
    unfold Words.dupWords at hvalues
    split at hvalues
    · cases hvalues
    · exact ⟨_, _, ‹_›⟩
  rw [Words.length_dupWords htop h.values]
  exact Nat.add_le_add_left (Words.length_takeWords htop) _

/-- What holds of the entries after an operation. -/
theorem step_respects (op : StackOp) (s : OperandStack) :
    (op.apply s).2.limit = s.limit ∧
      (∀ v ∈ (op.apply s).2.values, v ∈ s.values ∨ v ≠ .void ∧ v ≠ .top) ∧
      (op.apply s).2.values.length ≤ max s.values.length s.limit + op.spill s := by
  rcases op.apply_cases s with h | ⟨instruction, top, under, rfl, h⟩
  · exact ⟨h.limit, h.values, Nat.le_trans h.length (Nat.le_add_right _ _)⟩
  · refine ⟨h.limit, fun v hv => .inl (Words.mem_of_dupWords h.values hv), ?_⟩
    have hspill : (dup instruction top under).spill s = top := by simp only [spill, h.fault]
    have hlength := length_of_spills h
    omega

end StackOp

namespace OperandStack

/-! ### Any number of operations -/

/-- The stack after some operations, whether they fail or not. -/
def after (ops : List StackOp) (s : OperandStack) : OperandStack := ops.foldl (fun s op => (op.apply s).2) s

/-- The words that the operations copy though there is no room for them. -/
def spilled : List StackOp → OperandStack → Nat
  | [], _ => 0
  | op :: ops, s => op.spill s + spilled ops (op.apply s).2

theorem after_respects (ops : List StackOp) (s : OperandStack) :
    (after ops s).limit = s.limit ∧
      (∀ v ∈ (after ops s).values, v ∈ s.values ∨ v ≠ .void ∧ v ≠ .top) ∧
      (after ops s).values.length ≤ max s.values.length s.limit + spilled ops s := by
  induction ops generalizing s with
  | nil => exact ⟨rfl, fun _ => .inl, Nat.le_max_left _ _⟩
  | cons op ops ih =>
    obtain ⟨hlimit, hvalues, hlength⟩ := op.step_respects s
    obtain ⟨hlimit', hvalues', hlength'⟩ := ih (op.apply s).2
    refine ⟨hlimit'.trans hlimit, fun v hv => (hvalues' v hv).elim (hvalues v) .inr, ?_⟩
    change _ ≤ _ + (op.spill s + spilled ops (op.apply s).2)
    change (after ops (op.apply s).2).values.length ≤ _
    omega

/-- The stack holds no `void` and no `top`, and no more than its limit but for copies that went over it; these fail
and stay. A failure of the stack other than these leaves it as it was. -/
theorem operations_respect (limit : Nat) (ops : List StackOp) :
    let s := after ops (empty limit)
    s.limit = limit ∧ (∀ v ∈ s.values, v ≠ .void ∧ v ≠ .top) ∧
      s.values.length ≤ limit + spilled ops (empty limit) ∧
      ∀ op f t, StackOp.apply op s = (some f, t) → f.isStack = true →
        t = s ∨ ∃ instruction top under, op = .dup instruction top under ∧ f = .stackOverflow limit ∧
          limit < t.values.length ∧ Words.dupWords instruction top under s.values = .ok t.values := by
  intro s
  obtain ⟨hlimit, hvalues, hlength⟩ := after_respects ops (empty limit)
  refine ⟨hlimit, fun v hv => (hvalues v hv).resolve_left List.not_mem_nil, ?_, fun op f t happly hstack => ?_⟩
  · change _ ≤ max 0 limit + _ at hlength
    rwa [Nat.zero_max] at hlength
  · rcases op.apply_cases s with h | ⟨instruction, top, under, hop, h⟩
    · rw [happly] at h
      exact .inl (h.unchanged f rfl hstack)
    · rw [happly] at h
      cases h.fault
      have hover : s.limit < t.values.length := h.exceeds
      rw [show s.limit = limit from hlimit] at hover ⊢
      exact .inr ⟨instruction, top, under, hop, rfl, hover, h.values⟩

/-- A copy on a full stack fails and stays. -/
theorem copy_stays :
    (¬ ∀ limit ops, (after ops (empty limit)).values.length ≤ limit) ∧
      ¬ ∀ limit ops op f t, StackOp.apply op (after ops (empty limit)) = (some f, t) → f.isStack = true →
        t.values = (after ops (empty limit)).values := by
  refine ⟨fun h => ?_, fun h => ?_⟩
  · have hover := h 1 [.push (.int 1), .dup "dup" 1 0]
    revert hover
    decide
  · have hsame := h 1 [.push (.int 1)] (.dup "dup" 1 0) (.stackOverflow 1) _ rfl rfl
    revert hsame
    decide

end OperandStack

end Jvm
