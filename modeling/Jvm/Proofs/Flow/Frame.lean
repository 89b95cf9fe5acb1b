import Jvm.Flow.Frame
import Jvm.Proofs.Flow.StackEffect
import Mathlib.Data.List.Sort

/-!
# What frames stand for

`Frame.Valid code f`: the origins of `f` are in increasing order, and a literal names an instruction
that loads its constant. `Frame.Covers k f`: `k` knows no more than `f`, so that `k` is right of every
value of which `f` is right. `Frame.Coarsens k f` says more: unless `k` knows nothing but origins, it is `f`.

A meet covers both of its frames (`covers_meet_left`, `covers_meet_right`), and so does a frame with
everything but the origins forgotten. The test for equal frames compares constants as numbers, which
cannot tell the two zeros apart; that two valid literals of one origin have the same constant
(`covers_of_same`) is what makes it safe.
-/

namespace Jvm

namespace Frame

variable {code : Array Instruction} {f g k : Frame}

theorem isUnknown_iff : f.isUnknown = true ↔ f.source? = none := by
  cases f <;> simp [isUnknown, source?]

theorem eq_unknown (h : f.isUnknown = true) : f = unknown f.origins f.width := by
  cases f <;> first | rfl | cases h

theorem origins_of_source {n : Nat} (h : f.source? = some n) : f.origins = [n] := by
  cases f <;> simp_all [origins, source?]

theorem source_of_constant {c : Constant} (h : f.constant? = some c) :
    ∃ n, f = literal c n := by
  cases f <;> simp_all [constant?]

/-- The frame is one that the analysis of `code` makes. -/
structure Valid (code : Array Instruction) (f : Frame) : Prop where
  sorted : f.origins.Pairwise (· < ·)
  loaded : ∀ c n, f = literal c n → code[n]?.bind Instruction.loaded? = some c

/-- `k` knows no more than `f`. -/
structure Covers (k f : Frame) : Prop where
  width : k.width = f.width
  origins : ∀ n ∈ f.origins, n ∈ k.origins
  known : k.isUnknown = false → k.source? = f.source? ∧ k.constant? = f.constant?

theorem Covers.refl (f : Frame) : f.Covers f := ⟨rfl, fun _ h => h, fun _ => ⟨rfl, rfl⟩⟩

theorem Covers.trans (h : k.Covers f) (h' : f.Covers g) : k.Covers g := by
  refine ⟨h.width.trans h'.width, fun n hn => h.origins n (h'.origins n hn), fun hk => ?_⟩
  obtain ⟨hs, hc⟩ := h.known hk
  have hf : f.isUnknown = false := by
    rw [Bool.eq_false_iff, Ne, isUnknown_iff, ← hs, ← isUnknown_iff, hk]; simp
  obtain ⟨hs', hc'⟩ := h'.known hf
  exact ⟨hs.trans hs', hc.trans hc'⟩

/-- `k` is `f`, or nothing but the origins of `k` is known and those of `f` are among them. -/
structure Coarsens (k f : Frame) : Prop where
  width : k.width = f.width
  origins : ∀ n ∈ f.origins, n ∈ k.origins
  known : k.isUnknown = false → k = f

theorem Coarsens.refl (f : Frame) : f.Coarsens f := ⟨rfl, fun _ h => h, fun _ => rfl⟩

theorem Coarsens.covers (h : k.Coarsens f) : k.Covers f :=
  ⟨h.width, h.origins, fun hk => by rw [h.known hk]; exact ⟨rfl, rfl⟩⟩

theorem valid_of_source {n : Nat} (hs : f.source? = some n)
    (hc : ∀ c, f.constant? = some c → code[n]?.bind Instruction.loaded? = some c) : f.Valid code := by
  refine ⟨by rw [origins_of_source hs]; exact List.pairwise_singleton _ n, ?_⟩
  rintro c m rfl
  obtain rfl : m = n := by simpa [source?] using hs
  exact hc c rfl

/-! ### Ordered origins -/

theorem mem_insertOrigin {n m : Nat} {os : List Nat} : m ∈ insertOrigin n os ↔ m = n ∨ m ∈ os := by
  induction os with
  | nil => simp [insertOrigin]
  | cons a os ih =>
    simp only [insertOrigin]
    split
    · simp
    · split
      · rename_i h; subst h; simp
      · simp only [List.mem_cons, ih]; tauto

theorem pairwise_insertOrigin {n : Nat} {os : List Nat} (h : os.Pairwise (· < ·)) :
    (insertOrigin n os).Pairwise (· < ·) := by
  induction os with
  | nil => simp [insertOrigin]
  | cons a os ih =>
    obtain ⟨ha, hos⟩ := List.pairwise_cons.1 h
    simp only [insertOrigin]
    split
    · rename_i hn
      refine List.pairwise_cons.2 ⟨fun m hm => ?_, h⟩
      rcases List.mem_cons.1 hm with rfl | hm
      · exact hn
      · exact hn.trans (ha m hm)
    · split
      · exact h
      · refine List.pairwise_cons.2 ⟨fun m hm => ?_, ih hos⟩
        rcases mem_insertOrigin.1 hm with rfl | hm
        · omega
        · exact ha m hm

theorem mem_foldr_insertOrigin {m : Nat} {os : List Nat} :
    m ∈ os.foldr insertOrigin [] ↔ m ∈ os := by
  induction os with
  | nil => simp
  | cons a os ih => rw [List.foldr_cons, mem_insertOrigin, ih, List.mem_cons]

theorem mem_mergeOrigins {m : Nat} {a b : List Nat} : m ∈ mergeOrigins a b ↔ m ∈ a ∨ m ∈ b := by
  rw [mergeOrigins, mem_foldr_insertOrigin, List.mem_append]

theorem pairwise_mergeOrigins (a b : List Nat) : (mergeOrigins a b).Pairwise (· < ·) := by
  rw [mergeOrigins]
  generalize a ++ b = os
  induction os with
  | nil => exact .nil
  | cons n os ih => exact pairwise_insertOrigin ih

/-- The halving search finds a number of an increasing array exactly if it is there. -/
theorem searchFrom_iff {n : Nat} {xs : Array Nat}
    (hxs : ∀ (i j x y : Nat), i < j → xs[i]? = some x → xs[j]? = some y → x < y) {fuel base size : Nat}
    (hf : size < fuel) (hb : base + size ≤ xs.size) :
    searchFrom n xs fuel base size = true ↔ ∃ i, base ≤ i ∧ i < base + max size 1 ∧ xs[i]? = some n := by
  induction fuel generalizing base size with
  | zero => omega
  | succ fuel ih =>
    simp only [searchFrom]
    split
    · have hmax : max size 1 = 1 := by omega
      rw [hmax, beq_iff_eq]
      constructor
      · exact fun h => ⟨base, le_refl _, by omega, h⟩
      · rintro ⟨i, h1, h2, h⟩
        rwa [show i = base by omega] at h
    · rename_i hsize
      have hmid : base + size / 2 < xs.size := by omega
      have hget : xs[base + size / 2]? = some xs[base + size / 2] := Array.getElem?_eq_getElem hmid
      rw [hget, Option.getD_some]
      -- both halves keep the place of `n`, if it has one, on the side that is searched
      by_cases hlt : n < xs[base + size / 2]
      · rw [if_pos hlt, ih (by omega) (by omega)]
        constructor
        · rintro ⟨i, h1, h2, h⟩; exact ⟨i, h1, by omega, h⟩
        · rintro ⟨i, h1, h2, h⟩
          refine ⟨i, h1, ?_, h⟩
          rcases Nat.lt_trichotomy i (base + size / 2) with hi | hi | hi
          · omega
          · subst hi; rw [hget] at h; simp only [Option.some.injEq] at h; omega
          · have := hxs _ _ _ _ hi hget h; omega
      · rw [if_neg hlt, ih (by omega) (by omega)]
        constructor
        · rintro ⟨i, h1, h2, h⟩; exact ⟨i, by omega, by omega, h⟩
        · rintro ⟨i, h1, h2, h⟩
          refine ⟨i, ?_, by omega, h⟩
          by_contra hi
          have := hxs _ _ _ _ (by omega) h hget
          omega

/-- The search among ordered origins is membership. -/
theorem mayComeFrom_iff {n : Nat} (h : f.origins.Pairwise (· < ·)) :
    f.mayComeFrom n = true ↔ n ∈ f.origins := by
  cases hf : f.isUnknown with
  | false =>
    obtain ⟨m, hm⟩ : ∃ m, f.source? = some m := by
      cases f <;> simp_all [isUnknown, source?]
    have hmay : f.mayComeFrom n = (f.source? == some n) := by
      cases f <;> first | rfl | simp [isUnknown] at hf
    rw [hmay, hm, origins_of_source hm, beq_iff_eq, Option.some.injEq, List.mem_singleton, eq_comm]
  | true =>
    obtain ⟨os, w, rfl⟩ : ∃ os w, f = unknown os w := ⟨_, _, eq_unknown hf⟩
    simp only [origins] at h ⊢
    simp only [mayComeFrom]
    rw [searchFrom_iff ?_ (by omega) (by simp)]
    · constructor
      · rintro ⟨i, -, -, hi⟩
        exact List.mem_of_getElem? (by simpa using hi)
      · intro hn
        obtain ⟨i, hi⟩ := List.getElem?_of_mem hn
        have hlt := (List.getElem?_eq_some_iff.1 hi).1
        exact ⟨i, by omega, by omega, by simpa using hi⟩
    · intro i j x y hij hx hy
      obtain ⟨hi, rfl⟩ := List.getElem?_eq_some_iff.1 (by simpa using hx)
      obtain ⟨hj, rfl⟩ := List.getElem?_eq_some_iff.1 (by simpa using hy)
      exact List.pairwise_iff_getElem.1 h i j hi hj hij

/-! ### Meeting and forgetting -/

theorem source_of_same (h : f.same g = true) : f.source? = g.source? ∧ f.origins = g.origins := by
  cases f <;> cases g <;> simp_all [same, source?, origins]

theorem constant_of_same (h : f.same g = true) (hf : f.Valid code) (hg : g.Valid code) :
    f.constant? = g.constant? := by
  cases f <;> cases g <;> first | rfl | (simp [same] at h; done) | skip
  case literal.literal c n c' m =>
    simp only [same, Bool.and_eq_true, beq_iff_eq] at h
    obtain ⟨-, rfl⟩ := h
    rw [constant?, constant?, ← hf.loaded c n rfl, hg.loaded c' n rfl]

theorem width_of_same (h : f.same g = true) (hf : f.Valid code) (hg : g.Valid code) :
    f.width = g.width := by
  have hc := constant_of_same h hf hg
  cases f <;> cases g <;> simp_all [same, Frame.width, constant?]

/-- Frames of one code that are equal in the sense of the analysis know the same. -/
theorem covers_of_same (h : f.same g = true) (hf : f.Valid code) (hg : g.Valid code) : f.Covers g :=
  ⟨width_of_same h hf hg, fun _ hn => (source_of_same h).2 ▸ hn,
    fun _ => ⟨(source_of_same h).1, constant_of_same h hf hg⟩⟩

theorem mem_origins_meet {n : Nat} : n ∈ (f.meet g).origins ↔ n ∈ f.origins ∨ n ∈ g.origins := by
  rw [meet]
  split
  · rename_i h
    rw [← (source_of_same h).2, or_self]
  · exact mem_mergeOrigins

/-- The origins of a meet are in order if those of the first frame are. -/
theorem pairwise_origins_meet (hf : f.origins.Pairwise (· < ·)) : (f.meet g).origins.Pairwise (· < ·) := by
  rw [meet]
  split
  · exact hf
  · exact pairwise_mergeOrigins _ _

theorem meet_coarsens_left : (f.meet g).Coarsens f := by
  rw [meet]
  split
  · exact Coarsens.refl f
  · exact ⟨rfl, fun n hn => mem_mergeOrigins.2 (.inl hn), by simp [isUnknown]⟩

theorem covers_meet_left : (f.meet g).Covers f := meet_coarsens_left.covers

theorem covers_meet_right (hf : f.Valid code) (hg : g.Valid code) (hw : f.width = g.width) :
    (f.meet g).Covers g := by
  rw [meet]
  split
  · rename_i h; exact covers_of_same h hf hg
  · exact ⟨hw, fun n hn => mem_mergeOrigins.2 (.inr hn), by simp [isUnknown]⟩

theorem valid_meet (hf : f.Valid code) : (f.meet g).Valid code := by
  refine ⟨pairwise_origins_meet hf.sorted, fun c n hm => ?_⟩
  exact hf.loaded c n ((meet_coarsens_left.known (by rw [hm]; rfl)).symm.trans hm)

theorem covers_forget (f : Frame) : f.forget.Covers f :=
  ⟨rfl, fun _ hn => hn, by simp [forget, isUnknown]⟩

theorem valid_forget (hf : f.Valid code) : f.forget.Valid code := ⟨hf.sorted, by simp [forget]⟩

end Frame

end Jvm
