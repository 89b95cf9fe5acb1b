import Jvm.Proofs.Flow.Frame
import Mathlib

/-!
# Provenance

`Frame.Coarsens k f`: `k` tells no more than `f`. It is `f` itself, or only the origins of `k` are
known, and those of `f` are among them. In this order the meet of two frames is their greatest lower
bound (`meet_coarsens_left`, `meet_coarsens_right`, `coarsens_meet`), so that the frames of one width
are a semilattice (`Provenance`), in which no order of meeting them matters.

The meet finds equal frames by comparing constants as numbers. That is equality only where no constant
is a NaN, which differs from itself, and none is the negative zero, which is equal to the positive one
(`same_iff`). A frame carries the constants of its arguments with it, those of the arguments of an
argument too (`Frame.constants`).
-/

namespace Jvm

/-! ### Constants that compare as they are -/

namespace FloatFormat

/-- Neither a NaN nor the negative zero. -/
def isPlain (f : FloatFormat) (bits : Nat) : Bool :=
  !f.isNaN bits && !(f.magnitude bits == 0 && f.isNegative bits)

variable {f : FloatFormat} {a b : Nat}

theorem eq_zero_of_magnitude (hlt : a < 2 ^ (f.fraction + f.exponent + 1)) (ha : f.isPlain a = true)
    (h : f.magnitude a = 0) : a = 0 := by
  have hsign : a / 2 ^ (f.fraction + f.exponent) % 2 ≠ 1 := by
    simpa [isPlain, h, isNegative] using (Bool.and_eq_true_iff.1 ha).2
  have hdiv : a / 2 ^ (f.fraction + f.exponent) < 2 :=
    Nat.div_lt_of_lt_mul (by rwa [pow_succ] at hlt)
  have hmod : a % 2 ^ (f.fraction + f.exponent) = 0 := h
  have hquot : a / 2 ^ (f.fraction + f.exponent) = 0 := by
    rcases Nat.le_one_iff_eq_zero_or_eq_one.1 (Nat.lt_succ_iff.1 hdiv) with h0 | h1
    · exact h0
    · exact absurd (by rw [h1]) hsign
  rw [← Nat.div_add_mod a (2 ^ (f.fraction + f.exponent)), hmod, hquot]
  rfl

theorem sameNumber_iff (hlta : a < 2 ^ (f.fraction + f.exponent + 1))
    (hltb : b < 2 ^ (f.fraction + f.exponent + 1)) (ha : f.isPlain a = true) (hb : f.isPlain b = true) :
    f.sameNumber a b = true ↔ a = b := by
  have hna : f.isNaN a = false := by simpa using (Bool.and_eq_true_iff.1 ha).1
  have hnb : f.isNaN b = false := by simpa using (Bool.and_eq_true_iff.1 hb).1
  simp only [sameNumber, hna, hnb, Bool.not_false, Bool.true_and, Bool.or_eq_true, Bool.and_eq_true,
    beq_iff_eq]
  constructor
  · rintro (h | ⟨h, h'⟩)
    · exact h
    · rw [eq_zero_of_magnitude hlta ha h, eq_zero_of_magnitude hltb hb h']
  · exact .inl

end FloatFormat

namespace Constant

/-- The constant is neither a NaN nor the negative zero. -/
def isPlain : Constant → Bool
  | float x => FloatFormat.single.isPlain x.toBits.toNat
  | double x => FloatFormat.double.isPlain x.toBits.toNat
  | _ => true

theorem same_iff {v w : Constant} (hv : v.isPlain = true) (hw : w.isPlain = true) :
    v.same w = true ↔ v = w := by
  cases v <;> cases w <;> try (simp [same]; done)
  case float.float x y =>
    rw [same, singleEq, FloatFormat.sameNumber_iff x.toBits.toNat_lt y.toBits.toNat_lt hv hw,
      UInt32.toNat_inj, Float32.toBits_inj, float.injEq]
  case double.double x y =>
    rw [same, doubleEq, FloatFormat.sameNumber_iff x.toBits.toNat_lt y.toBits.toNat_lt hv hw,
      UInt64.toNat_inj, Float.toBits_inj, double.injEq]

end Constant

namespace Frame

mutual

/-- The constant of a literal, or all constants in the arguments of a call. -/
def constants : Frame → List Constant
  | literal value _ => [value]
  | call _ _ _ as _ _ => constantsAll as
  | _ => []

def constantsAll : List Frame → List Constant
  | [] => []
  | f :: fs => constants f ++ constantsAll fs

end

mutual

theorem same_iff {f g : Frame} (hf : ∀ c ∈ f.constants, c.isPlain = true)
    (hg : ∀ c ∈ g.constants, c.isPlain = true) : f.same g = true ↔ f = g := by
  -- constants are compared in literals, and in calls through their arguments
  cases f <;> cases g <;> try (simp [same, and_assoc]; done)
  case literal.literal v n w m =>
    rw [same, Bool.and_eq_true, Constant.same_iff (hf v (by simp [constants])) (hg w (by simp [constants])),
      beq_iff_eq, literal.injEq]
  case call.call as _ _ _ _ _ bs _ _ =>
    simp only [constants] at hf hg
    simp [same, sameAll_iff hf hg, and_assoc]

theorem sameAll_iff {fs gs : List Frame} (hf : ∀ c ∈ constantsAll fs, c.isPlain = true)
    (hg : ∀ c ∈ constantsAll gs, c.isPlain = true) : sameAll fs gs = true ↔ fs = gs := by
  cases fs with
  | nil => cases gs <;> simp [sameAll]
  | cons f fs =>
    cases gs with
    | nil => simp [sameAll]
    | cons g gs =>
      simp only [constantsAll, List.forall_mem_append] at hf hg
      rw [sameAll, Bool.and_eq_true, same_iff hf.1 hg.1, sameAll_iff hf.2 hg.2, List.cons.injEq]

end

/-- The origins are in increasing order, and no constant is a NaN or the negative zero. -/
structure Comparable (f : Frame) : Prop where
  sorted : f.origins.Pairwise (· < ·)
  plain : ∀ c ∈ f.constants, c.isPlain = true

variable {f g k : Frame}

/-! ### The order -/

theorem Coarsens.trans (h : k.Coarsens f) (h' : f.Coarsens g) : k.Coarsens g := by
  refine ⟨h.width.trans h'.width, fun n hn => h.origins n (h'.origins n hn), fun hk => ?_⟩
  obtain rfl := h.known hk
  exact h'.known hk

theorem Coarsens.antisymm (hk : k.origins.Pairwise (· < ·)) (hf : f.origins.Pairwise (· < ·))
    (h : k.Coarsens f) (h' : f.Coarsens k) : k = f := by
  cases hku : k.isUnknown with
  | false => exact h.known hku
  | true =>
    cases hfu : f.isUnknown with
    | false => exact (h'.known hfu).symm
    | true =>
      -- nothing but the origins is left, and lists in order are equal if their members are
      have horigins : k.origins = f.origins := hk.eq_of_mem_iff hf fun n => ⟨h'.origins n, h.origins n⟩
      rw [eq_unknown hku, eq_unknown hfu, horigins, h.width]

/-! ### The meet is the greatest lower bound -/

theorem meet_self (hf : f.Comparable) : f.meet f = f := by
  rw [meet, if_pos ((same_iff hf.plain hf.plain).2 rfl)]

theorem meet_coarsens_right (hf : f.Comparable) (hg : g.Comparable) (hw : f.width = g.width) :
    (f.meet g).Coarsens g := by
  rw [meet]
  split
  · rename_i h
    rw [(same_iff hf.plain hg.plain).1 h]
    exact Coarsens.refl g
  · exact ⟨hw, fun _ hn => mem_mergeOrigins.2 (.inr hn), by simp [isUnknown]⟩

theorem coarsens_meet (hf : f.Comparable) (h : k.Coarsens f) (h' : k.Coarsens g) : k.Coarsens (f.meet g) := by
  refine ⟨h.width.trans meet_coarsens_left.width.symm, fun n hn => ?_, fun hk => ?_⟩
  · exact (mem_origins_meet.1 hn).elim (h.origins n) (h'.origins n)
  · -- a known frame that coarsens both is both of them
    obtain rfl := h.known hk
    obtain rfl := h'.known hk
    exact (meet_self hf).symm

theorem comparable_meet (hf : f.Comparable) : (f.meet g).Comparable := by
  refine ⟨pairwise_origins_meet hf.sorted, ?_⟩
  rw [meet]
  split
  · exact hf.plain
  · simp [constants]

theorem comparable_forget (hf : f.Comparable) : f.forget.Comparable := ⟨hf.sorted, by simp [forget, constants]⟩

end Frame

/-- A frame of a given width whose origins are in order and whose constants are plain. -/
@[ext]
structure Provenance (w : Width) where
  frame : Frame
  width : frame.width = w
  comparable : frame.Comparable

namespace Provenance

variable {w : Width}

instance : PartialOrder (Provenance w) where
  le k f := k.frame.Coarsens f.frame
  le_refl f := .refl f.frame
  le_trans _ _ _ := Frame.Coarsens.trans
  le_antisymm k f h h' := Provenance.ext (h.antisymm k.comparable.sorted f.comparable.sorted h')

instance : SemilatticeInf (Provenance w) where
  inf f g :=
    ⟨f.frame.meet g.frame, Frame.meet_coarsens_left.width.trans f.width, Frame.comparable_meet f.comparable⟩
  inf_le_left _ _ := Frame.meet_coarsens_left
  inf_le_right f g := Frame.meet_coarsens_right f.comparable g.comparable (f.width.trans g.width.symm)
  le_inf _ f _ h h' := Frame.coarsens_meet f.comparable h h'

end Provenance

namespace Frame

variable {a b c : Frame}

theorem meet_comm (hab : a.width = b.width) (ha : a.Comparable) (hb : b.Comparable) :
    a.meet b = b.meet a :=
  congrArg Provenance.frame (inf_comm (⟨a, hab, ha⟩ : Provenance b.width) ⟨b, rfl, hb⟩)

theorem meet_assoc (hab : a.width = b.width) (hbc : b.width = c.width) (ha : a.Comparable)
    (hb : b.Comparable) (hc : c.Comparable) : (a.meet b).meet c = a.meet (b.meet c) :=
  congrArg Provenance.frame
    (inf_assoc (⟨a, hab.trans hbc, ha⟩ : Provenance c.width) ⟨b, hbc, hb⟩ ⟨c, rfl, hc⟩)

/-! ### The origins of a meet -/

theorem origins_meet (ha : a.origins.Pairwise (· < ·)) :
    (a.meet b).origins = (a.origins.toFinset ∪ b.origins.toFinset).sort := by
  refine (pairwise_origins_meet ha).eq_of_mem_iff (Finset.sortedLT_sort _).pairwise fun n => ?_
  rw [mem_origins_meet, Finset.mem_sort, Finset.mem_union, List.mem_toFinset, List.mem_toFinset]

theorem mayComeFrom_meet (ha : a.origins.Pairwise (· < ·)) (hb : b.origins.Pairwise (· < ·)) (n : Nat) :
    (a.meet b).mayComeFrom n = (a.mayComeFrom n || b.mayComeFrom n) := by
  rw [Bool.eq_iff_iff, Bool.or_eq_true, mayComeFrom_iff (pairwise_origins_meet ha), mayComeFrom_iff ha,
    mayComeFrom_iff hb, mem_origins_meet]

/-- The frames of one width are a semilattice under the meet, whose origins are all those of both
frames, in order and found by the search. What the meet of two frames tells beyond its origins, both
frames told. To forget all but the origins keeps them. -/
theorem meet_semilattice (hab : a.width = b.width) (hbc : b.width = c.width) (ha : a.Comparable)
    (hb : b.Comparable) (hc : c.Comparable) :
    (a.meet a = a ∧ a.meet b = b.meet a ∧ (a.meet b).meet c = a.meet (b.meet c)) ∧
      ((a.meet b).origins = (a.origins.toFinset ∪ b.origins.toFinset).sort ∧
        ∀ n, (a.meet b).mayComeFrom n = (a.mayComeFrom n || b.mayComeFrom n)) ∧
      (a.forget.isUnknown = true ∧ a.forget.origins = a.origins ∧ a.forget.forget = a.forget) ∧
      (((a.meet b).width = a.width ∧ (a.meet b).Comparable) ∧ a.forget.width = a.width ∧ a.forget.Comparable) ∧
      ∀ k, k.isUnknown = false → a.meet b = k → a = k ∧ b = k := by
  refine ⟨⟨meet_self ha, meet_comm hab ha hb, meet_assoc hab hbc ha hb hc⟩,
    ⟨origins_meet ha.sorted, mayComeFrom_meet ha.sorted hb.sorted⟩, ⟨rfl, rfl, rfl⟩,
    ⟨⟨meet_coarsens_left.width, comparable_meet ha⟩, rfl, comparable_forget ha⟩, ?_⟩
  rintro k hk rfl
  exact ⟨(meet_coarsens_left.known hk).symm, ((meet_coarsens_right ha hb hab).known hk).symm⟩

/-- The result of a call, to which it is not known which of two numbers was given. -/
def rounded : Frame :=
  call "A" "round" "(FD)I" [literal (.float 0.5) 0, unknown [1, 3] .double] 4 .single

/-- The result of that call, or what another instruction pushed. -/
def roundedOrNot : Frame := unknown [4, 9] .single

def seven : Frame := literal (.int 7) 6

theorem meet_semilattice_rounded :
    (rounded.width = roundedOrNot.width ∧ roundedOrNot.width = seven.width ∧
      rounded.Comparable ∧ roundedOrNot.Comparable ∧ seven.Comparable) ∧
    (rounded.meet rounded = rounded ∧ rounded.meet roundedOrNot = roundedOrNot.meet rounded ∧
      (rounded.meet roundedOrNot).meet seven = rounded.meet (roundedOrNot.meet seven)) ∧
    ((rounded.meet roundedOrNot).origins =
        (rounded.origins.toFinset ∪ roundedOrNot.origins.toFinset).sort ∧
      ∀ n, (rounded.meet roundedOrNot).mayComeFrom n =
        (rounded.mayComeFrom n || roundedOrNot.mayComeFrom n)) ∧
    (rounded.forget.isUnknown = true ∧ rounded.forget.origins = rounded.origins ∧
      rounded.forget.forget = rounded.forget) ∧
    (((rounded.meet roundedOrNot).width = rounded.width ∧ (rounded.meet roundedOrNot).Comparable) ∧
      rounded.forget.width = rounded.width ∧ rounded.forget.Comparable) ∧
    ∀ k, k.isUnknown = false → rounded.meet roundedOrNot = k → rounded = k ∧ roundedOrNot = k := by
  have hwidth : rounded.width = roundedOrNot.width := rfl
  have hwidth' : roundedOrNot.width = seven.width := rfl
  have hr : rounded.Comparable := ⟨by decide, by decide⟩
  have hn : roundedOrNot.Comparable := ⟨by decide, by decide⟩
  have hs : seven.Comparable := ⟨by decide, by decide⟩
  exact ⟨⟨hwidth, hwidth', hr, hn, hs⟩, meet_semilattice hwidth hwidth' hr hn hs⟩

end Frame

end Jvm
