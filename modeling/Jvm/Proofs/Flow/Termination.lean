import Jvm.Proofs.Flow.FixedPoint
import Mathlib

/-!
# The search ends

`Progress.measure` goes down with every visit. A visit takes one instruction out of the pending ones, and
puts one in only where something is learnt: a stack is known for the first time, or a frame of it is no
longer what it was. The `slack` of a frame is how often that can still happen, once from a frame whose
origin is known to one that is unknown, and then once for each origin that is not yet there.

A stack has at most two entries more than the one it was made from, and its instruction has been reached,
so that the entries of all stacks are bounded by the number of instructions reached (`Progress.Fits`).
-/

namespace Jvm

namespace Constant

theorem same_left {v w : Constant} (h : v.same w = true) : v.same v = true := by
  cases v <;> cases w <;> simp_all [same, singleEq, doubleEq, FloatFormat.sameNumber]

end Constant

namespace Frame

mutual

/-- A frame that is equal to any is equal to itself. -/
theorem same_left {f g : Frame} (h : f.same g = true) : f.same f = true := by
  cases f <;> cases g <;> simp_all [same]
  case literal.literal => exact Constant.same_left h.1
  case call.call => exact sameAll_left h.1.1.2

theorem sameAll_left {fs gs : List Frame} (h : sameAll fs gs = true) : sameAll fs fs = true := by
  cases fs with
  | nil => rfl
  | cons f fs =>
    cases gs with
    | nil => cases h
    | cons g gs =>
      rw [sameAll, Bool.and_eq_true] at h ⊢
      exact ⟨same_left h.1, sameAll_left h.2⟩

end

variable {code : Array Instruction} {size : Nat} {f g : Frame}

/-- The entry comes from instructions of a code. -/
def Within (size : Nat) (f : Frame) : Prop := ∀ n ∈ f.origins, n < size

theorem within_meet (hf : f.Within size) (hg : g.Within size) : (f.meet g).Within size :=
  fun n hn => (mem_origins_meet.1 hn).elim (hf n) (hg n)

/-- How often a frame can still come to be another one where stacks meet. -/
def slack (size : Nat) : Frame → Nat
  | unknown origins _ => size - origins.length
  | _ => size + 1

theorem slack_le (size : Nat) (f : Frame) : f.slack size ≤ size + 1 := by
  cases f <;> simp only [slack] <;> omega

/-- Increasing numbers below a bound are no more than the bound. -/
theorem length_le_of_within {os : List Nat} (hs : os.Pairwise (· < ·)) (hlt : ∀ n ∈ os, n < size) :
    os.length ≤ size := by
  have hsub : os.Subperm (List.range size) :=
    List.subperm_of_subset (hs.imp Nat.ne_of_lt) fun n hn => List.mem_range.2 (hlt n hn)
  simpa using hsub.length_le

theorem length_lt_mergeOrigins {os os' : List Nat} (hs : os.Pairwise (· < ·)) (hne : os ≠ mergeOrigins os os') :
    os.length < (mergeOrigins os os').length := by
  have hmerged := pairwise_mergeOrigins os os'
  have hsub : os.Subperm (mergeOrigins os os') :=
    List.subperm_of_subset (hs.imp Nat.ne_of_lt) fun n hn => mem_mergeOrigins.2 (.inl hn)
  refine lt_of_le_of_ne hsub.length_le fun heq => hne ?_
  exact (hsub.perm_of_length_le heq.ge).eq_of_pairwise (fun _ _ _ _ h h' => absurd h (Nat.lt_asymm h')) hs hmerged

/-- A frame that a meet changes has less slack afterwards. -/
theorem slack_meet (hf : f.Valid code) (hwf : f.Within size) (hwg : g.Within size) :
    (f.same (f.meet g) = true ∧ (f.meet g).slack size = f.slack size) ∨ (f.meet g).slack size < f.slack size := by
  rw [meet]
  split
  · rename_i h
    exact .inl ⟨same_left h, rfl⟩
  cases hu : f.isUnknown with
  | false =>
    have hslack : f.slack size = size + 1 := by cases f <;> first | rfl | cases hu
    rw [hslack]
    exact .inr (Nat.lt_succ_of_le (Nat.sub_le _ _))
  | true =>
    obtain ⟨os, w, rfl⟩ : ∃ os w, f = unknown os w := ⟨_, _, eq_unknown hu⟩
    change ((os == mergeOrigins os g.origins && w == w) = true ∧
      size - (mergeOrigins os g.origins).length = size - os.length) ∨
      size - (mergeOrigins os g.origins).length < size - os.length
    by_cases heq : os = mergeOrigins os g.origins
    · exact .inl ⟨by rw [← heq]; simp, by rw [← heq]⟩
    · have hsorted : os.Pairwise (· < ·) := hf.sorted
      have hlt := length_lt_mergeOrigins hsorted heq
      have hle := length_le_of_within (pairwise_mergeOrigins os g.origins)
        fun n hn => (mem_mergeOrigins.1 hn).elim (hwf n) (hwg n)
      exact .inr (by omega)

end Frame

/-! ### How much a stack grows -/

/-- The most entries that an effect adds. -/
def StackEffect.growth : StackEffect → Nat
  | replace _ _ => 1
  | copy top _ => top
  | drop _ | exchange | recast => 0

theorem StackEffect.length_run? {α : Type} [HasWidth α] {e : StackEffect} {make : Pushed → α}
    {σ taken after : List α} (h : e.run? make σ = some (taken, after)) : after.length ≤ σ.length + e.growth := by
  cases e with
  | replace count pushed =>
    simp only [run?] at h
    split at h
    · cases h
    cases h
    have hpushed : (pushed.map make).toList.length ≤ 1 := by cases pushed <;> simp
    simp only [growth, List.length_append, List.length_drop]
    omega
  | drop words =>
    simp only [run?] at h
    split at h
    · rename_i heq
      cases h
      simp [growth, Words.append_of_takeWords heq]
    · cases h
  | copy top under =>
    simp only [run?] at h
    split at h
    · rename_i moved heq
      cases h
      cases htop : Words.takeWords "" top σ with
      | error => simp [Words.dupWords, htop] at heq
      | ok r =>
        have := Words.length_dupWords htop heq
        have := Words.length_takeWords htop
        rw [growth]
        omega
    · cases h
  | exchange =>
    simp only [run?] at h
    split at h
    · rename_i moved heq
      cases h
      exact (Words.length_swap heq).le
    · cases h
  | recast =>
    cases σ <;> simp only [run?] at h <;> cases h
    exact Nat.le_refl _

theorem Instruction.growth_le {i : Instruction} {e : StackEffect} (h : i.stackEffect? = some e) : e.growth ≤ 2 := by
  obtain ⟨opcode, operand⟩ := i
  have hmap : ∀ o : Option Constant,
      (o.map fun c => StackEffect.replace 0 (some ⟨c.width, some c⟩)) = some e → e.growth ≤ 2 := by
    rintro (_ | c) ho <;> cases ho
    exact Nat.le_succ 1
  cases opcode
  case dup wide under => cases h; cases wide <;> simp [StackEffect.growth]
  case iconst | lconst | fconst | dconst => cases h; exact Nat.le_succ 1
  case bipush | sipush | ldc => exact hmap _ h
  all_goals
    simp only [stackEffect?, callEffect] at h
    repeat' split at h
  all_goals cases h
  all_goals simp [StackEffect.growth]

namespace Flow

variable {owner : String} {code : Array Instruction} {size : Nat}

/-- The slack of all entries of a stack. -/
def stackSlack (size : Nat) (stack : List Frame) : Nat := (stack.map (·.slack size)).sum

theorem stackSlack_le (size : Nat) (stack : List Frame) : stackSlack size stack ≤ stack.length * (size + 1) := by
  induction stack with
  | nil => simp [stackSlack]
  | cons f stack ih =>
    have hf := f.slack_le size
    rw [stackSlack, List.map_cons, List.sum_cons, ← stackSlack, List.length_cons, Nat.succ_mul]
    omega

/-- Every entry of the stack comes from instructions of a code. -/
abbrev StackWithin (size : Nat) (stack : List Frame) : Prop := ∀ f ∈ stack, f.Within size

/-- A stack that a meet changes has less slack afterwards. -/
theorem slack_meetStacks {target : Nat} {a b s : List Frame} (h : meetStacks owner target a b = .ok s)
    (hv : StackValid code a) (ha : StackWithin size a) (hb : StackWithin size b) :
    s.length = a.length ∧ StackWithin size s ∧
      ((Frame.sameAll a s = true ∧ stackSlack size s = stackSlack size a) ∨ stackSlack size s < stackSlack size a) := by
  rw [meetStacks] at h
  split at h
  · cases h
  split at h
  · cases h
  rename_i hlen _
  simp only [ne_eq, Decidable.not_not] at hlen
  cases h
  induction a generalizing b with
  | nil => exact ⟨rfl, fun f hf => (List.not_mem_nil hf).elim, .inl ⟨rfl, rfl⟩⟩
  | cons f a ih =>
    cases b with
    | nil => cases hlen
    | cons g b =>
      rename_i hwidth
      obtain ⟨hf, ha⟩ := List.forall_mem_cons.1 ha
      obtain ⟨hg, hb⟩ := List.forall_mem_cons.1 hb
      obtain ⟨hvf, hv⟩ := List.forall_mem_cons.1 hv
      have hwidth' : ¬a.map Frame.width ≠ b.map Frame.width := by simp_all
      obtain ⟨h1, h2, h3⟩ := ih hv ha hb hwidth' (Nat.succ.inj hlen)
      rw [List.zipWith_cons_cons]
      refine ⟨congrArg Nat.succ h1, List.forall_mem_cons.2 ⟨Frame.within_meet hf hg, h2⟩, ?_⟩
      simp only [stackSlack, List.map_cons, List.sum_cons, Frame.sameAll, Bool.and_eq_true] at h3 ⊢
      obtain ⟨hsame, hslack⟩ | hslack := Frame.slack_meet hvf hf hg <;>
        obtain ⟨hsames, hslacks⟩ | hslacks := h3
      · exact .inl ⟨⟨hsame, hsames⟩, by omega⟩
      all_goals exact .inr (by omega)

/-! ### The measure of a search -/

namespace Progress

/-- What is still to be learnt at an instruction. No stack has more than `2 * size` entries. -/
def slackAt (size : Nat) : Option (List Frame) → Nat
  | none => 1 + 2 * size * (size + 1)
  | some stack => stackSlack size stack

/-- No search makes more visits than this. -/
def measure (p : Progress) (size : Nat) : Nat :=
  p.pending.length + (p.incoming.toList.map (slackAt size)).sum

/-- How many instructions have been reached. -/
def reached (p : Progress) : Nat := p.incoming.toList.countP Option.isSome

/-- The stacks of a search are no longer than the instructions reached could make them. -/
structure Fits (size : Nat) (p : Progress) : Prop where
  incoming : p.incoming.size = size
  within : ∀ n stack, p.at? n = some stack → StackWithin size stack
  depth : ∀ n stack, p.at? n = some stack → stack.length + 2 ≤ 2 * p.reached

theorem reached_le (p : Progress) : p.reached ≤ p.incoming.size := List.countP_le_length

end Progress

/-- Replacing an entry changes a sum by the difference. -/
theorem sum_map_set {α : Type} {f : α → Nat} {xs : List α} {n : Nat} {x y : α} (h : xs[n]? = some x) :
    ((xs.set n y).map f).sum + f x = (xs.map f).sum + f y := by
  induction xs generalizing n with
  | nil => cases h
  | cons z xs ih =>
    cases n with
    | zero =>
      cases h
      simp only [List.set_cons_zero, List.map_cons, List.sum_cons]
      omega
    | succ n =>
      have := ih (by simpa using h)
      simp only [List.set_cons_succ, List.map_cons, List.sum_cons]
      omega

theorem length_insertOrigin_le (n : Nat) (os : List Nat) : (Frame.insertOrigin n os).length ≤ os.length + 1 := by
  induction os with
  | nil => exact Nat.le_refl _
  | cons m os ih =>
    simp only [Frame.insertOrigin]
    split
    · exact Nat.le_refl _
    · split
      · exact Nat.le_succ _
      · exact Nat.succ_le_succ ih

/-- A stack with less slack is put in the place of another one, and is pending. -/
theorem measure_learn {p : Progress} {t : Nat} {s : List Frame} (ht : t < p.incoming.size)
    (hslack : stackSlack size s < Progress.slackAt size (p.at? t)) :
    (p.learn ht s).measure size ≤ p.measure size := by
  have hlength := length_insertOrigin_le t p.pending
  have hget : p.incoming.toList[t]? = some (p.at? t) := by simp [ht, at?_eq ht]
  have hsum := sum_map_set (f := Progress.slackAt size) (y := some s) hget
  simp only [Progress.measure, Progress.learn, Array.toList_set]
  simp only [Progress.slackAt] at hsum hslack ⊢
  omega

/-- Where a stack is put, one more instruction has been reached, or as many as before. -/
theorem reached_learn {p : Progress} {t : Nat} {s : List Frame} (ht : t < p.incoming.size) :
    (p.learn ht s).reached = p.reached + if p.at? t = none then 1 else 0 := by
  have hpos : p.incoming[t].isSome = true → 0 < p.incoming.toList.countP Option.isSome := fun h =>
    List.countP_pos_iff.2 ⟨_, by simp, h⟩
  simp only [Progress.reached, Progress.learn, Array.toList_set, at?_eq ht]
  rw [List.countP_set (by simpa using ht), Array.getElem_toList]
  cases hknown : p.incoming[t] with
  | none => simp
  | some known =>
    have := hpos (by rw [hknown]; rfl)
    simp only [Option.isSome_some, if_true, reduceCtorEq, if_false]
    omega

theorem fits_learn {p : Progress} {t : Nat} {s : List Frame} (h : p.Fits size) (ht : t < p.incoming.size)
    (hs : StackWithin size s) (hlength : s.length + 2 ≤ 2 * p.reached + if p.at? t = none then 2 else 0) :
    (p.learn ht s).Fits size := by
  refine ⟨by simpa [Progress.learn] using h.incoming, fun n stack hn => ?_, fun n stack hn => ?_⟩
  · rw [at?_learn ht] at hn
    split at hn
    · cases hn
      exact hs
    · exact h.within n stack hn
  · rw [reached_learn ht]
    rw [at?_learn ht] at hn
    split at hn
    · cases hn
      by_cases hnone : p.at? t = none
      · rw [if_pos hnone] at hlength ⊢
        omega
      · rw [if_neg hnone] at hlength ⊢
        omega
    · have := h.depth n stack hn
      omega

theorem delivered_within {n t : Nat} {s : List Frame} (hs : StackWithin size s) :
    StackWithin size (Progress.delivered n t s) ∧ (Progress.delivered n t s).length = s.length := by
  rw [Progress.delivered]
  split
  · refine ⟨fun f hf => ?_, List.length_map _⟩
    obtain ⟨g, hg, rfl⟩ := List.mem_map.1 hf
    exact hs g hg
  · exact ⟨hs, rfl⟩

/-- An edge does not raise the measure. -/
theorem measure_follow {n t : Nat} {opcode : Opcode} {p q : Progress} {s : List Frame}
    (h : follow owner n opcode p (t, s) = .ok q) (hp : p.Fits size)
    (hvalid : ∀ n stack, p.at? n = some stack → StackValid code stack) (hs : StackWithin size s)
    (hlength : s.length ≤ 2 * p.reached) :
    q.Fits size ∧ q.measure size ≤ p.measure size ∧ p.reached ≤ q.reached := by
  obtain ⟨hwithin, hsame⟩ := delivered_within (n := n) (t := t) hs
  obtain ⟨ht, ⟨hnone, rfl⟩ | ⟨known, merged, hknown, hmerged, hcases⟩⟩ := follow_cases h
  · have hreached := hp.incoming ▸ p.reached_le
    have hslack : stackSlack size (Progress.delivered n t s) ≤ 2 * size * (size + 1) :=
      (stackSlack_le _ _).trans (Nat.mul_le_mul_right _ (by omega))
    refine ⟨fits_learn hp ht hwithin ?_, measure_learn ht ?_, ?_⟩
    · rw [if_pos hnone]
      omega
    · rw [hnone, Progress.slackAt]
      omega
    · rw [reached_learn ht]
      exact Nat.le_add_right _ _
  · obtain ⟨hlen, hmwithin, hslack⟩ :=
      slack_meetStacks hmerged (hvalid t known hknown) (hp.within t known hknown) hwithin
    obtain ⟨-, rfl⟩ | ⟨hchanged, rfl⟩ := hcases
    · exact ⟨hp, Nat.le_refl _, Nat.le_refl _⟩
    · refine ⟨fits_learn hp ht hmwithin ?_, measure_learn ht ?_, ?_⟩
      · have := hp.depth t known hknown
        omega
      · rw [hknown, Progress.slackAt]
        exact hslack.resolve_left fun hkept => Bool.eq_false_iff.1 hchanged hkept.1
      · rw [reached_learn ht]
        exact Nat.le_add_right _ _

theorem measure_follow_all {n : Nat} {opcode : Opcode} {p q : Progress} {edges : List (Nat × List Frame)}
    (h : edges.foldlM (follow owner n opcode) p = .ok q) (hp : p.Fits size)
    (hvalid : ∀ n stack, p.at? n = some stack → StackValid code stack)
    (hedges : ∀ edge ∈ edges, StackValid code edge.2 ∧ StackWithin size edge.2 ∧ edge.2.length ≤ 2 * p.reached) :
    q.Fits size ∧ q.measure size ≤ p.measure size := by
  induction edges generalizing p with
  | nil => cases h; exact ⟨hp, Nat.le_refl _⟩
  | cons edge edges ih =>
    rw [List.foldlM_cons] at h
    obtain ⟨⟨hv, hs, hlength⟩, hrest⟩ := List.forall_mem_cons.1 hedges
    cases hr : follow owner n opcode p edge with
    | error => rw [hr] at h; cases h
    | ok r =>
      rw [hr] at h
      obtain ⟨hfits, hle, hreached⟩ := measure_follow hr hp hvalid hs hlength
      obtain ⟨hq, hle'⟩ := ih h hfits (follow_spec hr hv hvalid).2.1 fun e he =>
        ⟨(hrest e he).1, (hrest e he).2.1, (hrest e he).2.2.trans (Nat.mul_le_mul_left 2 hreached)⟩
      exact ⟨hq, hle'.trans hle⟩

theorem within_transfer {n : Nat} {i : Instruction} {stack after : List Frame} {e : FlowEntry}
    (h : transfer owner n i stack = .ok (e, after)) (hn : n < size) (hs : StackWithin size stack) :
    StackWithin size after ∧ after.length ≤ stack.length + 2 := by
  obtain ⟨effect, make, heffect, hrun, hmake⟩ := transfer_follows h
  refine ⟨(StackEffect.run?_all (P := Frame.Within size) (fun p hp m hm => ?_) hs hrun).2, ?_⟩
  · rw [Frame.origins_of_source (hmake p hp).source, List.mem_singleton] at hm
    omega
  · have := StackEffect.length_run? hrun
    have := Instruction.growth_le heffect
    omega

/-- Where control goes, no stack has entries that were not there after the instruction. -/
theorem successors_sublist {n : Nat} {i : Instruction} {stack : List Frame} :
    ∀ edge ∈ successors n i stack, edge.2.Sublist stack := by
  intro edge he
  simp only [successors, List.mem_append, List.mem_map] at he
  rcases he with ⟨t, -, rfl⟩ | he
  · exact List.Sublist.refl _
  · split at he
    · rw [List.mem_singleton] at he
      subst he
      dsimp only
      split
      · exact List.drop_sublist 1 stack
      · exact List.Sublist.refl _
    · cases he

/-- A visit leaves less to visit. -/
theorem measure_visit {n : Nat} {rest : List Nat} {p q : Progress} (h : p.Sound owner code)
    (hp : p.Fits code.size) (hn : p.pending = n :: rest) (hq : visit owner code n { p with pending := rest } = .ok q) :
    q.Fits code.size ∧ q.measure code.size < p.measure code.size := by
  have hmeasure : Progress.measure { p with pending := rest } code.size + 1 = p.measure code.size := by
    simp only [Progress.measure, hn, List.length_cons]
    omega
  have hrest : Progress.Fits code.size { p with pending := rest } := ⟨hp.incoming, hp.within, hp.depth⟩
  simp only [visit] at hq
  split at hq
  · rename_i i stack hi hstack
    split at hq
    · cases hq
    rename_i e after htransfer
    have hlt := (Array.getElem?_eq_some_iff.1 hi).1
    have hdepth := hp.depth n stack hstack
    obtain ⟨hwithin, hgrowth⟩ := within_transfer htransfer hlt (hp.within n stack hstack)
    have hvalid := (valid_transfer htransfer hi (h.valid n stack hstack)).2
    have hedges : ∀ edge ∈ successors n i after, StackValid code edge.2 ∧ StackWithin code.size edge.2 ∧
        edge.2.length ≤ 2 * p.reached := by
      intro edge hedge
      have hsub := successors_sublist edge hedge
      have := hsub.length_le
      exact ⟨fun f hf => hvalid f (hsub.subset hf), fun f hf => hwithin f (hsub.subset hf), by omega⟩
    obtain ⟨hfits, hle⟩ := measure_follow_all hq (by exact ⟨hp.incoming, hp.within, hp.depth⟩) h.valid hedges
    exact ⟨hfits, Nat.lt_of_lt_of_eq (Nat.lt_succ_of_le hle) hmeasure⟩
  · cases hq
    exact ⟨hrest, by omega⟩

theorem fits_start (hpos : 0 < code.size) : (Progress.start code.size).Fits code.size := by
  have hstart := (sound_start : (Progress.start code.size).Sound "" code).start hpos
  have hreached : 0 < (Progress.start code.size).reached := by
    refine List.countP_pos_iff.2 ⟨some [], ?_, rfl⟩
    exact List.mem_of_getElem? (Array.getElem?_toList.trans (Option.join_eq_some_iff.1 hstart))
  refine ⟨by simp [Progress.start], fun n stack h => ?_, fun n stack h => ?_⟩ <;>
    obtain ⟨-, rfl⟩ := at?_start h
  · exact fun f hf => (List.not_mem_nil hf).elim
  · rw [List.length_nil]
    omega

theorem measure_start : (Progress.start code.size).measure code.size < fuelFor code.size := by
  have hall : ∀ k, ((List.replicate k none).map (Progress.slackAt code.size)).sum
      = k * (1 + 2 * code.size * (code.size + 1)) := by
    intro k
    rw [List.map_replicate, List.sum_replicate_nat, Progress.slackAt]
  have hset : ∀ k, (((List.replicate k none).set 0 (some [])).map (Progress.slackAt code.size)).sum
      ≤ ((List.replicate k none).map (Progress.slackAt code.size)).sum := by
    intro k
    cases k with
    | zero => exact Nat.le_refl _
    | succ k => simp [List.replicate_succ, Progress.slackAt, stackSlack]
  have hfuel : code.size * (1 + 2 * code.size * (code.size + 1)) ≤ code.size * (1 + 2 * code.size * (code.size + 2)) :=
    Nat.mul_le_mul_left _ (Nat.add_le_add_left (Nat.mul_le_mul_left _ (Nat.le_succ _)) 1)
  have hstart := (hset code.size).trans ((hall code.size).le.trans hfuel)
  simp only [Progress.measure, Progress.start, fuelFor, Array.toList_setIfInBounds, Array.toList_replicate,
    List.length_singleton]
  omega

end Flow

end Jvm
