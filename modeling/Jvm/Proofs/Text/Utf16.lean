import Jvm.Text.Units

/-!
# Characters and their units

Reading the units that characters are written in gives these characters (`chars_ofChars`). The other way round, units
come back as they were but for unpaired surrogates, in whose place stands what they were read as (`ofChars_chars`).
Whether a surrogate is unpaired can be told from the units beside it (`unpairedAt`), since no unit is both a high and a
low one: the pairs that are found from the left are all that there are.
-/

namespace Jvm.Units

/-- The unit at an index is a surrogate without its other half beside it. -/
def unpairedAt (us : Units) (i : Nat) : Bool :=
  us[i]?.any isHigh && !us[i + 1]?.any isLow || us[i]?.any isLow && !(0 < i && us[i - 1]?.any isHigh)

variable {us : Units} {u v : UInt16} {alone : Char}

theorem isHigh_iff : isHigh u ↔ 0xd800 ≤ u.toNat ∧ u.toNat ≤ 0xdbff := by
  simp [isHigh, UInt16.le_iff_toNat_le]

theorem isLow_iff : isLow u ↔ 0xdc00 ≤ u.toNat ∧ u.toNat ≤ 0xdfff := by
  simp [isLow, UInt16.le_iff_toNat_le]

theorem isLow_eq_false (h : isHigh u) : isLow u = false := by
  rw [isHigh_iff] at h
  rw [Bool.eq_false_iff, ne_eq, isLow_iff]
  omega

theorem isHigh_eq_false (h : isLow u) : isHigh u = false := by
  cases hu : isHigh u with
  | false => rfl
  | true => rw [isLow_eq_false hu] at h; cases h

theorem toNat_toUInt16 {n : Nat} (h : n < 0x10000) : n.toUInt16.toNat = n := by
  rw [Nat.toUInt16_eq, UInt16.toNat_ofNat', Nat.mod_eq_of_lt h]

theorem toNat_ofNat {n : Nat} (h : n.isValidChar) : (Char.ofNat n).toNat = n := by
  rw [Char.ofNat, dif_pos h]
  rfl

/-! ### Single characters -/

theorem ofChar_ofNat (h : ¬ isHigh u) (h' : ¬ isLow u) : ofChar (Char.ofNat u.toNat) = [u] := by
  rw [isHigh_iff] at h
  rw [isLow_iff] at h'
  have hu := u.toNat_lt
  have hvalid : u.toNat.isValidChar := by unfold Nat.isValidChar; omega
  unfold ofChar
  dsimp only
  rw [toNat_ofNat hvalid, if_pos hu, Nat.toUInt16_eq, UInt16.ofNat_toNat]

theorem ofChar_pairChar (h : isHigh u) (h' : isLow v) : ofChar (pairChar u v) = [u, v] := by
  rw [isHigh_iff] at h
  rw [isLow_iff] at h'
  have hvalid : (0x10000 + (u.toNat - 0xd800) * 0x400 + (v.toNat - 0xdc00)).isValidChar := by
    unfold Nat.isValidChar
    omega
  unfold ofChar pairChar
  dsimp only
  rw [toNat_ofNat hvalid]
  generalize hn : 0x10000 + (u.toNat - 0xd800) * 0x400 + (v.toNat - 0xdc00) = n
  have hhigh : (0xd800 + (n - 0x10000) / 0x400).toUInt16 = u :=
    UInt16.toNat_inj.1 (by rw [toNat_toUInt16 (by omega)]; omega)
  have hlow : (0xdc00 + (n - 0x10000) % 0x400).toUInt16 = v :=
    UInt16.toNat_inj.1 (by rw [toNat_toUInt16 (by omega)]; omega)
  rw [if_neg (by omega), hhigh, hlow]

/-- A character is written as one unit that is no surrogate, or as a pair. -/
theorem ofChar_cases (c : Char) :
    (∃ u, ofChar c = [u] ∧ isHigh u = false ∧ isLow u = false ∧ Char.ofNat u.toNat = c) ∨
      ∃ u v, ofChar c = [u, v] ∧ isHigh u ∧ isLow v ∧ pairChar u v = c := by
  have hvalid : c.toNat < 0xd800 ∨ 0xdfff < c.toNat ∧ c.toNat < 0x110000 := c.valid
  have hback : Char.ofNat c.toNat = c := Char.ofNat_toNat c
  unfold ofChar
  dsimp only
  generalize c.toNat = n at *
  split
  · have hn : n.toUInt16.toNat = n := toNat_toUInt16 (by omega)
    refine .inl ⟨_, rfl, ?_, ?_, by rw [hn, hback]⟩
    · rw [Bool.eq_false_iff, ne_eq, isHigh_iff]
      omega
    · rw [Bool.eq_false_iff, ne_eq, isLow_iff]
      omega
  · have hhigh : (0xd800 + (n - 0x10000) / 0x400).toUInt16.toNat = _ := toNat_toUInt16 (by omega)
    have hlow : (0xdc00 + (n - 0x10000) % 0x400).toUInt16.toNat = _ := toNat_toUInt16 (by omega)
    refine .inr ⟨_, _, rfl, isHigh_iff.2 (by omega), isLow_iff.2 (by omega), ?_⟩
    have hn : 0x10000 + (0xd800 + (n - 0x10000) / 0x400 - 0xd800) * 0x400 +
        (0xdc00 + (n - 0x10000) % 0x400 - 0xdc00) = n := by omega
    rw [pairChar, hhigh, hlow, hn, hback]

/-! ### Texts -/

theorem chars_single (h : isHigh u = false) (h' : isLow u = false) (us : Units) :
    chars alone (u :: us) = Char.ofNat u.toNat :: chars alone us := by
  cases us <;> simp [chars, h, h']

theorem chars_pair (h : isHigh u) (h' : isLow v) (us : Units) :
    chars alone (u :: v :: us) = pairChar u v :: chars alone us := by
  rw [chars, if_pos h, if_pos h']

/-- What characters are written in is read as these characters. -/
theorem chars_ofChars (alone : Char) (cs : List Char) : chars alone (ofChars cs) = cs := by
  induction cs with
  | nil => rfl
  | cons c cs ih =>
    rw [ofChars, List.flatMap_cons, ← ofChars]
    obtain ⟨u, hu, hhigh, hlow, hc⟩ | ⟨u, v, huv, hhigh, hlow, hc⟩ := ofChar_cases c
    · rw [hu, List.singleton_append, chars_single hhigh hlow, hc, ih]
    · rw [huv, List.cons_append, List.singleton_append, chars_pair hhigh hlow, hc, ih]

/-- A unit in front changes nothing for those behind it, unless it makes a pair with the next one. -/
theorem unpairedAt_succ {i : Nat} (h : i = 0 → isHigh u → us.head?.any isLow = false) :
    unpairedAt (u :: us) (i + 1) = unpairedAt us i := by
  cases i with
  | succ i => simp [unpairedAt]
  | zero =>
    rw [List.head?_eq_getElem?] at h
    cases hu : isHigh u with
    | false => simp [unpairedAt, hu]
    | true => simp [unpairedAt, h rfl hu]

theorem unpairedAt_zero : unpairedAt (u :: us) 0 = (isHigh u && !us.head?.any isLow || isLow u) := by
  simp [unpairedAt, List.head?_eq_getElem?]

/-- A text with another unit in place of each unpaired surrogate. -/
def paired (a : UInt16) (us : Units) : Units := us.mapIdx fun i u => if unpairedAt us i then a else u

theorem paired_cons {a : UInt16} (h : isHigh u → us.head?.any isLow = false) :
    paired a (u :: us) = (if isHigh u || isLow u then a else u) :: paired a us := by
  rw [paired, List.mapIdx_cons, unpairedAt_zero]
  simp only [unpairedAt_succ fun _ => h]
  cases hu : isHigh u with
  | false => rfl
  | true => rw [h hu]; rfl

/-- Both halves of a pair have each other beside them. -/
theorem paired_pair {a : UInt16} (h : isHigh u) (h' : isLow v) : paired a (u :: v :: us) = u :: v :: paired a us := by
  have hfirst : unpairedAt (u :: v :: us) 0 = false := by simp [unpairedAt_zero, h', isLow_eq_false h]
  have hsecond : unpairedAt (u :: v :: us) (0 + 1) = false := by simp [unpairedAt, h, isHigh_eq_false h']
  have hrest (i : Nat) : unpairedAt (u :: v :: us) (i + 1 + 1) = unpairedAt us i := by
    have hbehind : i + 1 = 0 → isHigh u → (v :: us).head?.any isLow = false := by simp
    have hnext : i = 0 → isHigh v → us.head?.any isLow = false := by simp [isHigh_eq_false h']
    rw [unpairedAt_succ hbehind, unpairedAt_succ hnext]
  rw [paired, List.mapIdx_cons, List.mapIdx_cons, hfirst, hsecond]
  simp only [hrest]
  rfl

/-- What is read of a text is written as this text, but for unpaired surrogates. -/
theorem ofChars_chars {a : UInt16} (ha : ofChar alone = [a]) (us : Units) : ofChars (chars alone us) = paired a us := by
  have hcons (c : Char) (cs : List Char) : ofChars (c :: cs) = ofChar c ++ ofChars cs := List.flatMap_cons
  fun_induction chars alone us with
  | case1 => rfl
  | case2 u h => rw [hcons, ha, paired_cons (by simp), if_pos h]; rfl
  | case3 u h =>
    rw [Bool.or_eq_true, not_or] at h
    rw [hcons, ofChar_ofNat h.1 h.2, paired_cons (by simp), if_neg (by simp [h])]
    rfl
  | case4 u v rest h h' ih => rw [hcons, ofChar_pairChar h h', paired_pair h h', ih]; rfl
  | case5 u v rest h h' ih => rw [hcons, ha, paired_cons (by simp [h']), if_pos (by simp [h]), ih]; rfl
  | case6 u v rest h h' ih => rw [hcons, ha, paired_cons (by simp [h]), if_pos (by simp [h']), ih]; rfl
  | case7 u v rest h h' ih =>
    rw [hcons, ofChar_ofNat h h', paired_cons (by simp [h]), if_neg (by simp [h, h']), ih]
    rfl

theorem paired_cons_eq_self_iff {a : UInt16} (ha : isHigh a = false) (ha' : isLow a = false)
    (h : isHigh u → us.head?.any isLow = false) :
    paired a (u :: us) = u :: us ↔ (isHigh u = false ∧ isLow u = false) ∧ paired a us = us := by
  rw [paired_cons h, List.cons.injEq, ← Bool.or_eq_false_iff]
  refine and_congr_left fun _ => ⟨fun hu => ?_, fun hu => by rw [hu]; rfl⟩
  cases hsurrogate : isHigh u || isLow u with
  | false => rfl
  | true =>
    -- what is put in the place of a surrogate is none
    rw [hsurrogate, if_pos rfl] at hu
    rw [← hu, ha, ha'] at hsurrogate
    cases hsurrogate

/-- A text is well formed just if it has no unpaired surrogate. -/
theorem paired_eq_self_iff {a : UInt16} (ha : isHigh a = false) (ha' : isLow a = false) :
    paired a us = us ↔ us.wellFormed := by
  fun_induction wellFormed us with
  | case1 => simp [paired]
  | case2 u =>
    rw [paired_cons_eq_self_iff ha ha' (by simp)]
    simp [paired]
  | case3 u v rest hhigh ih =>
    cases hlow : isLow v with
    | true => simp [paired_pair hhigh hlow, ih]
    | false =>
      rw [paired_cons_eq_self_iff ha ha' (by simp [hlow])]
      simp [hhigh]
  | case4 u v rest hhigh ih =>
    rw [paired_cons_eq_self_iff ha ha' (by simp [hhigh]), ih]
    simp [hhigh]

end Jvm.Units
