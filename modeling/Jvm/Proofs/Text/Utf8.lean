import Jvm.Text.Utf8

/-!
# What is written in UTF-8 can be read back

`decode_encode`: reading the bytes that characters are written in gives these characters, as `first` takes
all bytes of the first character and leaves the others (`first_encodeChar`). The forms that the reader
refuses, overlong ones and surrogates, are those that no character is written in. The writer is that of strings, so that
it writes exactly the bytes which `ByteArray.IsValidUTF8` calls valid.
-/

namespace Jvm.Utf8

theorem toNat_toUInt8 {n : Nat} (h : n < 0x100) : n.toUInt8.toNat = n := by
  rw [Nat.toUInt8_eq, UInt8.toNat_ofNat', Nat.mod_eq_of_lt h]

theorem isTail_iff {b : UInt8} : isTail b ↔ 0x80 ≤ b.toNat ∧ b.toNat ≤ 0xbf := by
  simp [isTail, UInt8.le_iff_toNat_le]

/-- The second byte of a long form continues the first, and is neither too low nor too high behind the four
first bytes whose forms are not all allowed. -/
theorem isSecond_of {a b : UInt8} (h : 0x80 ≤ b.toNat ∧ b.toNat ≤ 0xbf)
    (he0 : a.toNat = 0xe0 → 0xa0 ≤ b.toNat)
    (hed : a.toNat = 0xed → b.toNat ≤ 0x9f) (hf0 : a.toNat = 0xf0 → 0x90 ≤ b.toNat)
    (hf4 : a.toNat = 0xf4 → b.toNat ≤ 0x8f) : isSecond a b := by
  simp only [← UInt8.toNat_inj, isSecond, beq_iff_eq]
  split
  · simp_all [UInt8.le_iff_toNat_le]
  split
  · simp_all [UInt8.le_iff_toNat_le]
  split
  · simp_all [UInt8.le_iff_toNat_le]
  split
  · simp_all [UInt8.le_iff_toNat_le]
  · exact isTail_iff.2 h

variable {b c d e : UInt8} {rest : List UInt8}

theorem first_single (h : b.toNat < 0x80) : first b rest = (Char.ofNat b.toNat, 0) := by
  have : b < 0x80 := UInt8.lt_iff_toNat_lt.2 h
  simp [first, this]

theorem first_pair (h : 0xc2 ≤ b.toNat ∧ b.toNat ≤ 0xdf) (hc : isTail c) :
    first b (c :: rest) = (Char.ofNat ((b.toNat - 0xc0) * 0x40 + low6 c), 1) := by
  have h1 : ¬ b < 0x80 := by simp [UInt8.lt_iff_toNat_lt]; omega
  have h2 : 0xc2 ≤ b ∧ b ≤ 0xdf := by simpa [UInt8.le_iff_toNat_le] using h
  simp [first, h1, h2, hc]

theorem first_triple (h : 0xe0 ≤ b.toNat ∧ b.toNat ≤ 0xef) (hc : isSecond b c) (hd : isTail d) :
    first b (c :: d :: rest) =
      (Char.ofNat ((b.toNat - 0xe0) * 0x1000 + low6 c * 0x40 + low6 d), 2) := by
  have h1 : ¬ b < 0x80 := by simp [UInt8.lt_iff_toNat_lt]; omega
  have h2 : ¬ (0xc2 ≤ b ∧ b ≤ 0xdf) := by simp [UInt8.le_iff_toNat_le]; omega
  have h3 : 0xe0 ≤ b ∧ b ≤ 0xef := by simpa [UInt8.le_iff_toNat_le] using h
  simp [first, h1, h2, h3, hc, hd]

theorem first_quadruple (h : 0xf0 ≤ b.toNat ∧ b.toNat ≤ 0xf4) (hc : isSecond b c) (hd : isTail d)
    (he : isTail e) :
    first b (c :: d :: e :: rest) =
      (Char.ofNat ((b.toNat - 0xf0) * 0x40000 + low6 c * 0x1000 + low6 d * 0x40 + low6 e), 3) := by
  have h1 : ¬ b < 0x80 := by simp [UInt8.lt_iff_toNat_lt]; omega
  have h2 : ¬ (0xc2 ≤ b ∧ b ≤ 0xdf) := by simp [UInt8.le_iff_toNat_le]; omega
  have h3 : ¬ (0xe0 ≤ b ∧ b ≤ 0xef) := by simp [UInt8.le_iff_toNat_le]; omega
  have h4 : 0xf0 ≤ b ∧ b ≤ 0xf4 := by simpa [UInt8.le_iff_toNat_le] using h
  simp [first, h1, h2, h3, h4, hc, hd, he]

/-- The bytes of a character are read as this character, whatever follows. -/
theorem first_encodeChar (c : Char) (rest : List UInt8) :
    ∃ b bs, encodeChar c = b :: bs ∧ first b (bs ++ rest) = (c, bs.length) := by
  have hvalid : c.toNat < 0xd800 ∨ 0xdfff < c.toNat ∧ c.toNat < 0x110000 := c.valid
  have hback : Char.ofNat c.toNat = c := Char.ofNat_toNat c
  unfold encodeChar
  dsimp only
  generalize c.toNat = n at *
  have byte : ∀ m, m < 0x100 → m.toUInt8.toNat = m := fun m => toNat_toUInt8
  have tail : ∀ m, isTail (0x80 + m % 0x40).toUInt8 := fun m => by rw [isTail_iff, byte _ (by omega)]; omega
  have low : ∀ m, low6 (0x80 + m % 0x40).toUInt8 = m % 0x40 := fun m => by rw [low6, byte _ (by omega)]; omega
  split
  · refine ⟨_, _, rfl, ?_⟩
    rw [first_single (by rw [byte _ (by omega)]; omega), byte _ (by omega), hback]
    rfl
  split
  · refine ⟨_, _, rfl, ?_⟩
    have hb := byte (0xc0 + n / 0x40) (by omega)
    rw [List.cons_append, first_pair (by omega) (tail _), hb, low, ← hback]
    congr 2
    omega
  split
  · refine ⟨_, _, rfl, ?_⟩
    have hb := byte (0xe0 + n / 0x1000) (by omega)
    have hc := byte (0x80 + n / 0x40 % 0x40) (by omega)
    have hsecond : isSecond (0xe0 + n / 0x1000).toUInt8 (0x80 + n / 0x40 % 0x40).toUInt8 := by
      apply isSecond_of <;> omega
    rw [List.cons_append, List.cons_append, first_triple (by omega) hsecond (tail _), hb, low, low, ← hback]
    congr 2
    omega
  · refine ⟨_, _, rfl, ?_⟩
    have hb := byte (0xf0 + n / 0x40000) (by omega)
    have hc := byte (0x80 + n / 0x1000 % 0x40) (by omega)
    have hsecond : isSecond (0xf0 + n / 0x40000).toUInt8 (0x80 + n / 0x1000 % 0x40).toUInt8 := by
      apply isSecond_of <;> omega
    rw [List.cons_append, List.cons_append, List.cons_append, first_quadruple (by omega) hsecond (tail _) (tail _),
      hb, low, low, low, ← hback]
    congr 2
    omega

theorem decode_encode (cs : List Char) : decode (encode cs) = cs := by
  induction cs with
  | nil => rw [encode, List.flatMap_nil, decode]
  | cons c cs ih =>
    obtain ⟨b, bs, hbytes, hfirst⟩ := first_encodeChar c (encode cs)
    rw [encode, List.flatMap_cons, hbytes, List.cons_append, decode, ← encode, hfirst, List.drop_left, ih]

/-! ### Valid bytes -/

/-- Strings are written in the same way. -/
theorem encodeChar_eq (c : Char) : encodeChar c = String.utf8EncodeChar c := by
  have hvalid : c.toNat < 0xd800 ∨ 0xdfff < c.toNat ∧ c.toNat < 0x110000 := c.valid
  have hval : c.val.toNat = c.toNat := rfl
  unfold encodeChar String.utf8EncodeChar
  dsimp only
  rw [hval]
  generalize c.toNat = n at *
  simp only [Nat.toUInt8_eq, Nat.add_comm _ (n % 0x40), Nat.add_comm _ (n / 0x40 % 0x40),
    Nat.add_comm _ (n / 0x1000 % 0x40)]
  -- the first byte needs no remainder, as the number is in range
  by_cases hone : n < 0x80
  · rw [if_pos hone, if_pos (by omega)]
  by_cases htwo : n < 0x800
  · have hfirst : 0xc0 + n / 0x40 = n / 64 % 0x20 + 0xc0 := by omega
    rw [if_neg hone, if_pos htwo, if_neg (by omega), if_pos (by omega), hfirst]
  by_cases hthree : n < 0x10000
  · have hfirst : 0xe0 + n / 0x1000 = n / 4096 % 0x10 + 0xe0 := by omega
    rw [if_neg hone, if_neg htwo, if_pos hthree, if_neg (by omega), if_neg (by omega), if_pos (by omega), hfirst]
  · have hfirst : 0xf0 + n / 0x40000 = n / 262144 % 0x08 + 0xf0 := by omega
    rw [if_neg hone, if_neg htwo, if_neg hthree, if_neg (by omega), if_neg (by omega), if_neg (by omega), hfirst]

theorem isValidUTF8_iff {bs : List UInt8} : bs.toByteArray.IsValidUTF8 ↔ ∃ cs, encode cs = bs := by
  have hencode (cs : List Char) : cs.utf8Encode = (encode cs).toByteArray := by
    rw [List.utf8Encode, encode]
    simp only [funext encodeChar_eq]
  constructor
  · rintro ⟨cs, hcs⟩
    rw [hencode] at hcs
    exact ⟨cs, by simpa using hcs.symm⟩
  · rintro ⟨cs, rfl⟩
    exact ⟨cs, (hencode cs).symm⟩

end Jvm.Utf8
