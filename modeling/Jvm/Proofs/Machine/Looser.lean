import Jvm.Proofs.Machine.Secure

/-!
# Actions under wider limits

`Exec.Looser n R x y` compares `x` with `y` under limits that are wider in every respect, from the same state but
for the limit of its heap. Either `x` ends by a limit, or is cut off, and nothing is said; or both end in the same
way, with results in the relation `R`, and in the same state but for that limit.

Limits are kept in three places: in the world, in the heap and in the stack of each running method. They are
looked at where a frame, an object or a word is added and where an instruction is counted, and they never get
into a result, so an orderly action is looser than itself (`Exec.Orderly.looser`). The fuel depends on the
limits, too, and the search for a static field uses it.
-/

namespace Jvm

open Exec (Anything)

/-- The limits allow at least as much. -/
structure Limits.Le (l l' : Limits) : Prop where
  /-- Zero stands for as many as it takes. -/
  instructions : l'.instructions = 0 ∨ l.instructions ≠ 0 ∧ l.instructions ≤ l'.instructions
  callDepth : l.callDepth ≤ l'.callDepth
  stackDepth : l.stackDepth ≤ l'.stackDepth
  heapObjects : l.heapObjects ≤ l'.heapObjects

/-- The run was ended by a limit, or cut off. -/
def Stop.IsCut (e : Stop) : Prop := e = .outOfFuel ∨ e.faultKind = some .stepBudget

theorem Limits.Le.instructionBound {l l' : Limits} (h : l.Le l') : l.instructionBound ≤ l'.instructionBound := by
  have hbound : ∀ n : UInt64, n.toNat ≤ 0x10000000000000000 := fun n => Nat.le_of_lt n.toNat_lt
  unfold Limits.instructionBound
  rcases h.instructions with hzero | ⟨hn, hle⟩
  · rw [if_pos hzero]
    split
    · exact Nat.le_refl _
    · exact hbound _
  · rw [if_neg hn]
    split
    · exact hbound _
    · exact UInt64.le_iff_toNat_le.1 hle

def World.withLimits (w : World) (limits : Limits) : World := { w with limits }

def State.withLimit (s : State) (k : Nat) : State := { s with heap := s.heap.withLimit k }

/-- The state with one more method that runs. -/
def State.within (s : State) (f : CallFrame) : State := { s with frames := f :: s.frames }

theorem State.within_withLimit (s : State) (k : Nat) (f : CallFrame) :
    (s.withLimit k).within f = (s.within f).withLimit k := rfl

theorem Exec.pushFrame_within (owner name : String) (line : Int32) (w : World) (s : State) :
    pushFrame owner name line w s =
      if w.limits.callDepth ≤ s.frames.length then
        .error (.error (.emulation (.callDepth (s.frames.length + 1) w.limits.callDepth))) s
      else .ok () (s.within (.ofMethod owner name line)) := pushFrame_apply owner name line w s

theorem World.fuel_le {w : World} {l : Limits} (h : w.limits.Le l) : w.fuel ≤ (w.withLimits l).fuel := by
  have hinstructions := h.instructionBound
  have hdepth := h.callDepth
  have hobjects := h.heapObjects
  refine Nat.mul_le_mul ?_ ?_
  · simp only [withLimits]
    omega
  · simp only [withLimits]
    omega

namespace Exec

variable {α β γ δ : Type} {n : Nat} {R : α → β → Prop}

/-- The second result is the first one under wider limits, unless the first one is by a limit. -/
def Widens (R : α → β → Prop) (s : State) (k : Nat) (r : EStateM.Result Stop State α)
    (r' : EStateM.Result Stop State β) : Prop :=
  match r with
  | .ok a t => t.heap.limit = s.heap.limit ∧ ∃ b, R a b ∧ r' = .ok b (t.withLimit k)
  | .error e t => e.IsCut ∨ r' = .error e (t.withLimit k)

theorem Widens.of_limit {s t : State} {k : Nat} {r : EStateM.Result Stop State α} {r' : EStateM.Result Stop State β}
    (h : Widens R t k r r') (hlimit : t.heap.limit = s.heap.limit) : Widens R s k r r' := by
  unfold Widens at h ⊢
  rw [hlimit] at h
  exact h

/-- From states with at least `n` objects, the second action does under wider limits what the first one does. -/
def Looser (n : Nat) (R : α → β → Prop) (x : Exec α) (y : Exec β) : Prop :=
  ∀ w s l k, n ≤ s.heap.size → w.limits.Le l → s.heap.limit ≤ k →
    Widens R s k (x w s) (y (w.withLimits l) (s.withLimit k))

namespace Looser

variable {x : Exec α} {y : Exec β}

theorem raise {k : Nat} (h : Looser n R x y) (hk : n ≤ k) : Looser k R x y :=
  fun w s l j hn => h w s l j (Nat.le_trans hk hn)

theorem pure {a : α} {b : β} (hab : R a b) : Looser n R (Pure.pure a) (Pure.pure b) :=
  fun _ _ _ _ _ _ _ => ⟨rfl, b, hab, rfl⟩

theorem stop (e : Stop) : Looser n R (throw e) (throw e) := fun _ _ _ _ _ _ _ => .inr rfl

theorem cutOff : Looser n R (throw .outOfFuel) y := fun _ _ _ _ _ _ _ => .inl (.inl rfl)

theorem ofExcept (r : Except Fault α) : Looser n Eq (liftM r : Exec α) (liftM r) := by
  cases r with
  | ok a => exact pure rfl
  | error f => exact stop _

/-- What comes next may rely on what is known of the result, and on the objects that there are. -/
theorem bind {P : Nat → α → Prop} {S : γ → δ → Prop} {f : α → Exec γ} {g : β → Exec δ}
    (hxy : Looser n R x y) (hx : Secure .free n P x)
    (hfg : ∀ k a b, n ≤ k → P k a → R a b → Looser k S (f a) (g b)) : Looser n S (x >>= f) (y >>= g) := by
  intro w s l k hn hl hk
  have hwidens := hxy w s l k hn hl hk
  have hends := hx w s (Demands.knows_free w) (Demands.meets_free s) hn
  rw [bind_apply, bind_apply]
  cases hres : x w s with
  | error e t =>
    rw [hres] at hwidens
    rcases hwidens with hcut | hy
    · exact .inl hcut
    · rw [hy]
      exact .inr rfl
  | ok a t =>
    rw [hres] at hwidens hends
    obtain ⟨hlimit, b, hab, hy⟩ := hwidens
    obtain ⟨ha, hreaches⟩ := hends
    rw [hy]
    have hrest := hfg t.heap.size a b (Nat.le_trans hn hreaches.size) ha hab w t l k (Nat.le_refl _) hl
      (hlimit ▸ hk)
    exact hrest.of_limit hlimit

/-- A search that has an end comes to the same end with more fuel. -/
theorem findStatic (d : ClassDictionary) (m : MemberRef) {fuel fuel' : Nat} (hfuel : fuel ≤ fuel')
    (owner : String) (w : World) (s : State) (l : Limits) (k : Nat) :
    Widens Eq s k (Step.findStatic d m fuel owner w s)
      (Step.findStatic d m fuel' owner (w.withLimits l) (s.withLimit k)) := by
  induction fuel generalizing fuel' owner with
  | zero => exact .inl (.inl rfl)
  | succ fuel ih =>
    -- the fuel of the other search has a step left, too
    obtain ⟨i, rfl⟩ : ∃ i, fuel' = i + 1 := ⟨fuel' - 1, by omega⟩
    rw [Step.findStatic, Step.findStatic]
    cases d.get? owner with
    | none => exact .inr rfl
    | some c =>
      dsimp only
      cases (c.field? m.name).filter (·.isStatic) with
      | some f => exact ⟨rfl, _, rfl, rfl⟩
      | none =>
        cases c.superName with
        | some above => exact ih (Nat.le_of_succ_le_succ hfuel) above
        | none => exact .inr rfl

theorem resolveStatic (f : MemberRef) : Looser n Eq (Step.resolveStatic f) (Step.resolveStatic f) :=
  fun w s l k _ hl _ => findStatic w.program f (World.fuel_le hl) f.owner w s l k

theorem ofHeap {E : Demands} {P : Nat → α → Prop} {x : Exec α} {f : Heap → Except Fault (α × Heap)}
    (hx : x.OnHeap f) (hf : Heap.Orderly E n P f) : Looser n Eq x x := by
  intro w s l k _ _ hk
  have hlimit := hf.limit s.heap k hk
  have hheap : (s.withLimit k).heap = s.heap.withLimit k := rfl
  rw [hx, hx, hheap]
  cases hres : f s.heap with
  | error e =>
    rw [hres] at hlimit
    rcases hlimit with hcut | heq
    · exact .inl (.inr (congrArg some hcut))
    · rw [heq]
      exact .inr rfl
  | ok p =>
    rw [hres] at hlimit
    obtain ⟨hlimit, heq⟩ := hlimit
    rw [heq]
    exact ⟨hlimit, p.1, rfl, rfl⟩

theorem tick : Looser n Eq Exec.tick Exec.tick := by
  intro w s l k _ hl _
  rw [tick_apply, tick_apply]
  by_cases hlimit : w.limits.instructions ≠ 0 ∧ w.limits.instructions.toNat ≤ s.steps
  · rw [if_pos hlimit]
    exact .inl (.inr rfl)
  -- a wider limit is none, or it is not reached either
  have hlimit' : ¬ ((w.withLimits l).limits.instructions ≠ 0 ∧
      (w.withLimits l).limits.instructions.toNat ≤ (s.withLimit k).steps) := by
    rintro ⟨hn, hle⟩
    rcases hl.instructions with hzero | ⟨hn', hle'⟩
    · exact hn hzero
    · exact hlimit ⟨hn', Nat.le_trans (UInt64.le_iff_toNat_le.1 hle') hle⟩
  rw [if_neg hlimit, if_neg hlimit']
  exact ⟨rfl, (), rfl, rfl⟩

theorem withFrame (owner name : String) (line : Int32) (hxy : Looser n R x y) (hx : Secure .free n Anything x) :
    Looser n R (Exec.withFrame owner name line x) (Exec.withFrame owner name line y) := by
  intro w s l k hn hl hk
  rw [withFrame_apply, withFrame_apply, pushFrame_within, pushFrame_within]
  by_cases hdepth : w.limits.callDepth ≤ s.frames.length
  · rw [if_pos hdepth]
    exact .inl (.inr rfl)
  have hdepth' : ¬ (w.withLimits l).limits.callDepth ≤ (s.withLimit k).frames.length := by
    intro hle
    exact hdepth (Nat.le_trans hl.callDepth hle)
  -- both run from one state with one more frame, which is taken off again
  rw [if_neg hdepth, if_neg hdepth', State.within_withLimit]
  have hwidens := hxy w (s.within (.ofMethod owner name line)) l k hn hl hk
  have hends := hx w (s.within (.ofMethod owner name line)) (Demands.knows_free w) (Demands.meets_free _) hn
  dsimp only
  cases hres : x w (s.within (.ofMethod owner name line)) with
  | error e t =>
    rw [hres] at hwidens
    rcases hwidens with hcut | hy
    · exact .inl hcut
    · rw [hy]
      exact .inr rfl
  | ok a t =>
    rw [hres] at hwidens hends
    obtain ⟨hlimit, b, hab, hy⟩ := hwidens
    have hframes : t.frames = CallFrame.ofMethod owner name line :: s.frames := hends.2.frames
    have hframes' : (t.withLimit k).frames = CallFrame.ofMethod owner name line :: s.frames := hframes
    rw [hy]
    dsimp only
    rw [popFrame_apply, popFrame_apply, hframes, hframes']
    exact ⟨hlimit, b, hab, rfl⟩

end Looser

def loosened : Surroundings :=
  { Demands.free with
    calls := fun n x => Secure .free n Demands.free.Issues x ∧ Looser n Eq x x
    setUps := fun x => Secure .free 0 Anything x ∧ Looser 0 Eq x x }

theorem trusted_loosened : loosened.Trusted := ⟨fun _ _ h => h.1, fun _ h => h.1⟩

theorem Orderly.looser {P : Nat → α → Prop} {x : Exec α} (h : Orderly loosened n P x) : Looser n Eq x x := by
  induction h with
  | pure _ => exact .pure rfl
  | fail _ => exact .stop _
  | refuse _ => exact .stop _
  | bind hx _ ihx ihf =>
    refine ihx.bind (hx.secure trusted_loosened) fun k a b hk ha hab => ?_
    subst hab
    exact ihf k a hk ha
  | weaken _ _ ih => exact ih
  | raise _ hk ih => exact ih.raise hk
  | @world _ _ _ f _ heq ih =>
    intro w s l k hn hl hk
    have hf : f (w.withLimits l) = f w := heq w l
    rw [bind_apply, bind_apply, read_apply, read_apply]
    dsimp only
    rw [hf]
    exact ih w (Demands.knows_free w) w s l k hn hl hk
  | @get _ _ _ f _ heq ih =>
    intro w s l k hn hl hk
    rw [bind_apply, bind_apply, get_apply, get_apply]
    dsimp only
    rw [heq s (s.withLimit k) k rfl rfl rfl]
    exact ih s (Demands.meets_free s) hn w s l k (Nat.le_refl _) hl hk
  | @framed _ _ _ f _ ih =>
    intro w s l k hn hl hk
    rw [framed_apply, framed_apply]
    by_cases hdepth : w.limits.callDepth ≤ s.frames.length
    · rw [if_pos hdepth]
      exact .inl (.inr rfl)
    have hdepth' : ¬ (w.withLimits l).limits.callDepth ≤ (s.withLimit k).frames.length := by
      intro hle
      exact hdepth (Nat.le_trans hl.callDepth hle)
    rw [if_neg hdepth, if_neg hdepth']
    exact ih s.frames w s l k hn hl hk
  | ofHeap hx hf => exact .ofHeap hx hf
  | clock => exact fun w s l k _ _ _ => ⟨rfl, _, rfl, rfl⟩
  | putStatic owner name hv => exact fun w s l k _ _ _ => ⟨rfl, (), rfl, rfl⟩
  | resolveStatic f => exact .resolveStatic f
  | call h => exact h.2
  | setUp h => exact h.2.raise (Nat.zero_le _)

end Exec

def Activation.withLimit (a : Activation) (j : Nat) : Activation := { a with stack := a.stack.withLimit j }

namespace Step

variable {α : Type} {n : Nat}

/-- The same result, with the same activation but for the limit of its stack. -/
def Same (limit j : Nat) (p p' : α × Activation) : Prop := p.2.stack.limit = limit ∧ p' = (p.1, p.2.withLimit j)

/-- Under wider limits, also of its stack, the step does what it does. -/
def Looser (n : Nat) (m : Step α) : Prop :=
  ∀ k a j, n ≤ k → a.stack.limit ≤ j → Exec.Looser k (Same a.stack.limit j) (m a) (m (a.withLimit j))

theorem Orderly.looser {P : Nat → α → Prop} {m : Step α} (h : Orderly Exec.loosened n P m) : Looser n m := by
  induction h with
  | pure _ => exact fun k a j _ _ => .pure ⟨rfl, rfl⟩
  | bind hm _ ihm ihf =>
    intro k a j hk hj
    have hsecure := hm.secure Exec.trusted_loosened k a hk False.elim
    refine (ihm k a j hk hj).bind hsecure fun i p p' hi hp hpp' => ?_
    obtain ⟨hlimit, rfl⟩ := hpp'
    have hrest := ihf i p.1 (Nat.le_trans hk hi) hp.1 i p.2 j (Nat.le_refl _) (hlimit ▸ hj)
    rw [hlimit] at hrest
    exact hrest
  | raise _ hk ih => exact fun i a j hi hj => ih i a j (Nat.le_trans hk hi) hj
  | lift hx =>
    intro k a j hk hj
    refine (hx.looser.raise hk).bind ((hx.secure Exec.trusted_loosened).raise hk) fun i x y _ _ hxy => ?_
    subst hxy
    exact .pure ⟨rfl, rfl⟩
  | @liftStack _ _ _ m hm =>
    intro k a j hk hj w s l i _ _ _
    have hwidens := (hm k a.stack hk False.elim).2 j hj
    have hstack : (a.withLimit j).stack = a.stack.withLimit j := rfl
    rw [liftStack_apply, liftStack_apply, hstack]
    cases hres : m a.stack with
    | ok x stack =>
      rw [hres] at hwidens
      rw [hwidens.2]
      exact ⟨rfl, _, ⟨hwidens.1, rfl⟩, rfl⟩
    | error f stack =>
      rw [hres] at hwidens
      rcases hwidens with hcut | ⟨stack', hstack'⟩
      · exact .inl (.inr (congrArg some hcut))
      · rw [hstack']
        exact .inr rfl
  | @world _ _ _ f _ heq ih =>
    intro k a j hk hj w s l i hn hl hi
    have hf : f (w.withLimits l) = f w := heq w l
    rw [bind_apply, bind_apply]
    change Exec.Widens _ s i (f w a w s) (f (w.withLimits l) (a.withLimit j) (w.withLimits l) (s.withLimit i))
    rw [hf]
    exact ih w (Demands.knows_free w) k a j hk hj w s l i hn hl hi
  | @get _ _ _ f _ heq ih =>
    intro k a j hk hj w s l i hn hl hi
    have hf : f (a.withLimit j) = f a := heq a _
    rw [bind_apply, bind_apply, get_apply, get_apply]
    dsimp only
    rw [hf]
    exact ih k a hk False.elim k a j (Nat.le_refl _) hj w s l i hn hl hi
  | locals _ => exact fun k a j _ _ => .pure ⟨rfl, rfl⟩

end Step

end Jvm
