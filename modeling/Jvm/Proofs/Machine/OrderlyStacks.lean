import Jvm.Machine.Arithmetic
import Jvm.Proofs.Machine.Orderly

/-!
# Stack operations are orderly

`OperandStack.Orderly E n P m` says of a stack operation what `Exec.Orderly` says of an action: the references
that it leaves on the stack and returns are ones that were issued, it raises no internal fault, and a higher
limit of the stack only makes it go on where it would have overflowed.
-/

namespace Jvm

namespace Words

variable {α : Type} [HasWidth α] {instruction : String} {top under n : Nat} {stack values : List α}

theorem mild_takeWords (n : Nat) (stack : List α) : Mild (takeWords instruction n stack) := by
  induction stack generalizing n with
  | nil => cases n <;> simp [takeWords, Fault.isInternal]
  | cons a rest ih =>
    cases n with
    | zero => exact .ok _
    | succ n =>
      rw [takeWords]
      split
      · exact .error rfl
      have hrest := ih (n + 1 - (width a).words)
      split
      · exact .ok _
      · exact .error (hrest _ ‹_›)

theorem mild_dupWords (top under : Nat) (stack : List α) : Mild (dupWords instruction top under stack) := by
  unfold dupWords
  split
  · exact .error (mild_takeWords top stack _ ‹_›)
  split
  · exact .error (mild_takeWords under _ _ ‹_›)
  · exact .ok _

theorem mild_swap (stack : List α) : Mild (swap stack) := by
  unfold swap
  split
  · split <;> simp [Fault.isInternal]
  · exact .error rfl

theorem mem_of_dupWords (h : dupWords instruction top under stack = .ok values) {a : α} (ha : a ∈ values) :
    a ∈ stack := by
  unfold dupWords at h
  split at h
  · cases h
  rename_i copied below htop
  split at h <;> cases h
  rename_i skipped rest hunder
  rw [append_of_takeWords htop, append_of_takeWords hunder]
  simp only [List.mem_append] at ha ⊢
  rcases ha with ((ha | ha) | ha) | ha
  · exact .inl ha
  · exact .inr (.inl ha)
  · exact .inl ha
  · exact .inr (.inr ha)

theorem mem_of_swap (h : swap stack = .ok values) {a : α} (ha : a ∈ values) : a ∈ stack := by
  unfold swap at h
  split at h
  · split at h <;> cases h
    simp only [List.mem_cons] at ha ⊢
    rcases ha with ha | ha | ha
    · exact .inr (.inl ha)
    · exact .inl ha
    · exact .inr (.inr ha)
  · cases h

end Words

theorem ArithOp.mild_onInt (op : ArithOp) (a b : Int32) : Mild (op.onInt a b) := by
  cases op <;> unfold onInt <;> dsimp only <;> first | exact .ok _ | skip
  all_goals split <;> simp [Fault.isInternal]

theorem ArithOp.mild_onLong (op : ArithOp) (a b : Int64) : Mild (op.onLong a b) := by
  cases op <;> unfold onLong <;> dsimp only <;> first | exact .ok _ | skip
  all_goals split <;> simp [Fault.isInternal]

variable {E : Demands} {n : Nat}

namespace OperandStack

def withLimit (s : OperandStack) (l : Nat) : OperandStack := { s with limit := l }

@[simp] theorem depth_withLimit (s : OperandStack) (l : Nat) : (s.withLimit l).depth = s.depth := rfl

/-- What an operation leaves where it succeeds, and how it fails. -/
def Leaves (E : Demands) (k : Nat) {α : Type} (P : Nat → α → Prop) (r : EStateM.Result Fault OperandStack α) : Prop :=
  match r with
  | .ok x t => P k x ∧ (E.handles → t.Issued k)
  | .error f _ => f.isInternal = false

/-- The second result is the first one with another limit, unless the first one is an overflow. -/
def Widens (l : Nat) {α : Type} (limit : Nat) (r r' : EStateM.Result Fault OperandStack α) : Prop :=
  match r with
  | .ok x t => t.limit = limit ∧ r' = .ok x (t.withLimit l)
  | .error f _ => f.kind = .stepBudget ∨ ∃ t, r' = .error f t

def Orderly (E : Demands) (n : Nat) {α : Type} (P : Nat → α → Prop) (m : StackM α) : Prop :=
  ∀ k s, n ≤ k → (E.handles → s.Issued k) →
    Leaves E k P (m s) ∧ ∀ l, s.limit ≤ l → Widens l s.limit (m s) (m (s.withLimit l))

namespace Orderly

variable {α β : Type} {P : Nat → α → Prop} {Q : Nat → β → Prop} {m : StackM α}

theorem pure {x : α} (hx : ∀ k, n ≤ k → P k x) : Orderly E n P (Pure.pure x : StackM α) :=
  fun k _ hk hs => ⟨⟨hx k hk, hs⟩, fun _ _ => ⟨rfl, rfl⟩⟩

theorem throw {f : Fault} (hf : f.isInternal = false) : Orderly E n P (MonadExcept.throw f : StackM α) :=
  fun _ _ _ _ => ⟨hf, fun _ _ => .inr ⟨_, rfl⟩⟩

theorem bind {f : α → StackM β} (hm : Orderly E n P m) (hf : ∀ k x, n ≤ k → P k x → Orderly E k Q (f x)) :
    Orderly E n Q (m >>= f) := by
  intro k s hk hs
  obtain ⟨h1, h2⟩ := hm k s hk hs
  rw [bind_apply]
  cases hres : m s with
  | error e t =>
    rw [hres] at h1 h2
    refine ⟨h1, fun l hl => ?_⟩
    rcases h2 l hl with hbudget | ⟨t', ht'⟩
    · exact .inl hbudget
    · exact .inr ⟨t', by rw [bind_apply, ht']⟩
  | ok x t =>
    rw [hres] at h1 h2
    obtain ⟨h3, h4⟩ := hf k x hk h1.1 k t (Nat.le_refl _) h1.2
    refine ⟨h3, fun l hl => ?_⟩
    obtain ⟨hlimit, heq⟩ := h2 l hl
    rw [bind_apply, heq]
    exact hlimit ▸ h4 l (hlimit ▸ hl)

theorem raise {k : Nat} (h : Orderly E n P m) (hk : n ≤ k) : Orderly E k P m :=
  fun j s hj hs => h j s (Nat.le_trans hk hj) hs

theorem next {f : α → StackM β} (hm : Orderly E n P m) (hf : ∀ x, Orderly E n Q (f x)) :
    Orderly E n Q (m >>= f) := hm.bind fun _ x hk _ => (hf x).raise hk

end Orderly

theorem orderly_pop : Orderly E n E.Issues pop := by
  intro k s _ hs
  obtain ⟨limit, values, depth, hdepth⟩ := s
  cases values with
  | nil => exact ⟨rfl, fun _ _ => .inr ⟨_, rfl⟩⟩
  | cons v rest =>
    exact ⟨⟨fun hh => hs hh v List.mem_cons_self, fun hh u hu => hs hh u (List.mem_cons_of_mem _ hu)⟩,
      fun _ _ => ⟨rfl, rfl⟩⟩

theorem orderly_peek : Orderly E n E.Issues peek := by
  intro k s _ hs
  obtain ⟨limit, values, depth, hdepth⟩ := s
  cases values with
  | nil => exact ⟨rfl, fun _ _ => .inr ⟨_, rfl⟩⟩
  | cons v rest => exact ⟨⟨fun hh => hs hh v List.mem_cons_self, hs⟩, fun _ _ => ⟨rfl, rfl⟩⟩

theorem orderly_push {v : Value} (hv : E.Issues n v) : Orderly E n Exec.Anything (push v) := by
  intro k s hk hs
  unfold push
  by_cases hvoid : v = .void ∨ v = .top
  · rw [if_pos hvoid]
    refine ⟨rfl, fun l _ => ?_⟩
    rw [if_pos hvoid]
    exact .inr ⟨_, rfl⟩
  rw [if_neg hvoid]
  by_cases hfull : s.limit ≤ s.depth
  · rw [if_pos hfull]
    exact ⟨rfl, fun _ _ => .inl rfl⟩
  rw [if_neg hfull]
  refine ⟨⟨trivial, fun hh u hu => ?_⟩, fun l hl => ?_⟩
  · rcases List.mem_cons.1 hu with rfl | hu
    · exact (hv hh).mono hk
    · exact hs hh u hu
  · have hroom : ¬ (s.withLimit l).limit ≤ (s.withLimit l).depth := by
      rw [depth_withLimit]
      change ¬ l ≤ s.depth
      omega
    rw [if_neg hvoid, if_neg hroom]
    exact ⟨rfl, rfl⟩

theorem orderly_popN (count : Nat) :
    Orderly E n (fun k vs => vs.length = count ∧ ∀ v ∈ vs, E.Issues k v) (popN count) := by
  intro k s _ hs
  unfold popN
  by_cases hshort : s.depth < count
  · rw [if_pos hshort]
    refine ⟨rfl, fun l _ => ?_⟩
    rw [if_pos (show (s.withLimit l).depth < count from hshort)]
    exact .inr ⟨_, rfl⟩
  rw [if_neg hshort]
  refine ⟨⟨⟨?_, fun v hv hh => ?_⟩, fun hh u hu => hs hh u (List.mem_of_mem_drop hu)⟩, fun l _ => ?_⟩
  · have hdepth := s.depth_eq
    rw [List.length_reverse, List.length_take]
    omega
  · exact hs hh v (List.mem_of_mem_take (List.mem_reverse.1 hv))
  · rw [if_neg (show ¬ (s.withLimit l).depth < count from hshort)]
    exact ⟨rfl, rfl⟩

theorem orderly_popWords (name : String) (count : Nat) : Orderly E n Exec.Anything (popWords name count) := by
  intro k s _ hs
  obtain ⟨limit, values, depth, hdepth⟩ := s
  unfold popWords withLimit
  dsimp only
  split
  · exact ⟨Words.mild_takeWords count values _ ‹_›, fun _ _ => .inr ⟨_, rfl⟩⟩
  · rename_i taken rest h
    refine ⟨⟨trivial, fun hh u hu => hs hh u ?_⟩, fun _ _ => ⟨rfl, rfl⟩⟩
    change u ∈ values
    rw [Words.append_of_takeWords h]
    exact List.mem_append_right _ hu

theorem orderly_swap : Orderly E n Exec.Anything swap := by
  intro k s _ hs
  obtain ⟨limit, values, depth, hdepth⟩ := s
  unfold swap withLimit
  dsimp only
  split
  · exact ⟨Words.mild_swap values _ ‹_›, fun _ _ => .inr ⟨_, rfl⟩⟩
  · rename_i h
    exact ⟨⟨trivial, fun hh u hu => hs hh u (Words.mem_of_swap h hu)⟩, fun _ _ => ⟨rfl, rfl⟩⟩

theorem orderly_dupUnchecked (name : String) (top under : Nat) :
    Orderly E n Exec.Anything (dupUnchecked name top under) := by
  intro k s _ hs
  obtain ⟨limit, values, depth, hdepth⟩ := s
  unfold dupUnchecked withLimit
  dsimp only
  split
  · rename_i h
    exact ⟨⟨trivial, fun hh u hu => hs hh u (Words.mem_of_dupWords h hu)⟩, fun _ _ => ⟨rfl, rfl⟩⟩
  · exact ⟨Words.mild_takeWords top values _ ‹_›, fun _ _ => .inr ⟨_, rfl⟩⟩
  · exact ⟨Words.mild_dupWords top under values _ ‹_›, fun _ _ => .inr ⟨_, rfl⟩⟩

theorem orderly_checkLimit : Orderly E n Exec.Anything checkLimit := by
  intro k s _ hs
  unfold checkLimit
  by_cases hover : s.limit < s.depth
  · rw [if_pos hover]
    exact ⟨rfl, fun _ _ => .inl rfl⟩
  rw [if_neg hover]
  refine ⟨⟨trivial, hs⟩, fun l hl => ?_⟩
  have hroom : ¬ (s.withLimit l).limit < (s.withLimit l).depth := by
    rw [depth_withLimit]
    change ¬ l < s.depth
    omega
  rw [if_neg hroom]
  exact ⟨rfl, rfl⟩

theorem orderly_dup (name : String) (top under : Nat) : Orderly E n Exec.Anything (dup name top under) :=
  (orderly_dupUnchecked name top under).next fun _ => orderly_checkLimit

/-! ### Arithmetic -/

theorem orderly_popAs {α : Type} {read : Value → Except Fault α} (hread : ∀ v, Mild (read v)) :
    Orderly E n Exec.Anything (popAs read) := by
  refine orderly_pop.next fun v => ?_
  cases hres : read v with
  | ok a => exact .pure fun _ _ => trivial
  | error f => exact .throw (hread v f hres)

section

variable (name : String)

theorem orderly_popReference :
    Orderly E n (fun k v => E.Issues k v ∧ v.isReferenceLike = true) (popReference name) := by
  refine orderly_pop.bind fun k v _ hv => ?_
  cases hres : v.asReference name with
  | error f => exact .throw (Value.mild_asReference name v f hres)
  | ok u =>
    obtain ⟨rfl, hlike⟩ := Value.eq_of_asReference hres
    exact .pure fun _ hj => ⟨hv.mono hj, hlike⟩

theorem orderly_popInt : Orderly E n Exec.Anything (popInt name) := orderly_popAs (Value.mild_asInt name)

theorem orderly_popLong : Orderly E n Exec.Anything (popLong name) := orderly_popAs (Value.mild_asLong name)

theorem orderly_popFloat : Orderly E n Exec.Anything (popFloat name) := orderly_popAs (Value.mild_asFloat name)

theorem orderly_popDouble : Orderly E n Exec.Anything (popDouble name) := orderly_popAs (Value.mild_asDouble name)

theorem orderly_pushScalar {v : Value} (hv : v.ref? = none) : Orderly E n Exec.Anything (push v) :=
  orderly_push fun _ => Value.issued_of_ref? hv

theorem orderly_arith (op : ArithOp) (t : NumType) : Orderly E n Exec.Anything (arith name op t) := by
  cases t with
  | int =>
    refine (orderly_popInt name).next fun b => (orderly_popInt name).next fun a => ?_
    cases hres : op.onInt a b with
    | ok v => exact orderly_pushScalar rfl
    | error f => exact .throw (op.mild_onInt a b f hres)
  | long =>
    refine (orderly_popLong name).next fun b => (orderly_popLong name).next fun a => ?_
    cases hres : op.onLong a b with
    | ok v => exact orderly_pushScalar rfl
    | error f => exact .throw (op.mild_onLong a b f hres)
  | float => exact (orderly_popFloat name).next fun _ => (orderly_popFloat name).next fun _ => orderly_pushScalar rfl
  | double =>
    exact (orderly_popDouble name).next fun _ => (orderly_popDouble name).next fun _ => orderly_pushScalar rfl

theorem orderly_negate (t : NumType) : Orderly E n Exec.Anything (negate name t) := by
  cases t
  case int => exact (orderly_popInt name).next fun _ => orderly_pushScalar rfl
  case long => exact (orderly_popLong name).next fun _ => orderly_pushScalar rfl
  case float => exact (orderly_popFloat name).next fun _ => orderly_pushScalar rfl
  case double => exact (orderly_popDouble name).next fun _ => orderly_pushScalar rfl

theorem orderly_shift (op : ShiftOp) (size : IntSize) : Orderly E n Exec.Anything (shift name op size) := by
  refine size.casesOn ?_ ?_
  · exact (orderly_popInt name).next fun _ => (orderly_popInt name).next fun _ => orderly_pushScalar rfl
  · exact (orderly_popInt name).next fun _ => (orderly_popLong name).next fun _ => orderly_pushScalar rfl

theorem orderly_bits (op : BitOp) (size : IntSize) : Orderly E n Exec.Anything (bits name op size) := by
  refine size.casesOn ?_ ?_
  · exact (orderly_popInt name).next fun _ => (orderly_popInt name).next fun _ => orderly_pushScalar rfl
  · exact (orderly_popLong name).next fun _ => (orderly_popLong name).next fun _ => orderly_pushScalar rfl

theorem orderly_convert (c : Conversion) : Orderly E n Exec.Anything (convert name c) := by
  cases c
  case i2l | i2f | i2d | i2b | i2c | i2s => exact (orderly_popInt name).next fun _ => orderly_pushScalar rfl
  case l2i | l2f | l2d => exact (orderly_popLong name).next fun _ => orderly_pushScalar rfl
  case f2i | f2l | f2d => exact (orderly_popFloat name).next fun _ => orderly_pushScalar rfl
  case d2i | d2l | d2f => exact (orderly_popDouble name).next fun _ => orderly_pushScalar rfl

theorem orderly_compareLong : Orderly E n Exec.Anything (compareLong name) :=
  (orderly_popLong name).next fun _ => (orderly_popLong name).next fun _ => orderly_pushScalar rfl

theorem orderly_compareFloat (nanGreater : Bool) : Orderly E n Exec.Anything (compareFloat name nanGreater) :=
  (orderly_popFloat name).next fun _ => (orderly_popFloat name).next fun _ => orderly_pushScalar rfl

theorem orderly_compareDouble (nanGreater : Bool) : Orderly E n Exec.Anything (compareDouble name nanGreater) :=
  (orderly_popDouble name).next fun _ => (orderly_popDouble name).next fun _ => orderly_pushScalar rfl

theorem orderly_testZero (c : Cond) : Orderly E n Exec.Anything (testZero name c) :=
  (orderly_popInt name).next fun _ => .pure fun _ _ => trivial

theorem orderly_testInts (c : Cond) : Orderly E n Exec.Anything (testInts name c) :=
  (orderly_popInt name).next fun _ => (orderly_popInt name).next fun _ => .pure fun _ _ => trivial

end

end OperandStack

end Jvm
