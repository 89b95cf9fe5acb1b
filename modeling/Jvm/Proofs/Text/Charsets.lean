import Mathlib.Algebra.Ring.Parity
import Jvm.Proofs.Text.Utf16
import Jvm.Proofs.Text.Utf8
import Jvm.Text.Charset

/-!
# Texts as bytes and back

What a charset writes of a text is read as this text, with `?` for each unit that it lacks. What it reads of bytes is
written as these bytes just if they are such as it writes (`round_trips`). UTF-8 goes by way of characters, and the
other charsets write each unit on its own.
-/

namespace Jvm.Charset

/-- The charset has no bytes for the unit at an index, which is an unpaired surrogate or out of range. -/
def lacks : Charset → Units → Nat → Bool
  | utf8, us, i => us.unpairedAt i
  | latin1, us, i => us[i]?.any (0xff < ·)
  | ascii, us, i => us[i]?.any (0x7f < ·)
  | utf16be, _, _ | utf16le, _, _ | utf16, _, _ => false

/-- The charset has bytes for all of a text. -/
def Represents : Charset → Units → Prop
  | utf8, us => us.wellFormed
  | latin1, us => ∀ u ∈ us, u ≤ 0xff
  | ascii, us => ∀ u ∈ us, u ≤ 0x7f
  | utf16be, _ | utf16le, _ | utf16, _ => True

/-- The charset writes such bytes. -/
def Writes : Charset → List UInt8 → Prop
  | utf8, bs => bs.toByteArray.IsValidUTF8
  | latin1, _ => True
  | ascii, bs => ∀ b ∈ bs, b ≤ 0x7f
  | utf16be, bs | utf16le, bs => Even bs.length
  | utf16, bs => Even bs.length ∧ [0xfe, 0xff] <+: bs

variable {us : Units} {bs : List UInt8} {u bound : UInt16} {big : Bool}

/-! ### Units of two bytes -/

theorem toNat_unit (hi lo : UInt8) : (hi.toUInt16 <<< 8 ||| lo.toUInt16).toNat = hi.toNat * 0x100 + lo.toNat := by
  have hhi := hi.toNat_lt
  have hlo := lo.toNat_lt
  have hshift : (hi.toUInt16 <<< 8).toNat = hi.toNat <<< 8 := by
    rw [UInt16.toNat_shiftLeft, UInt8.toNat_toUInt16]
    change hi.toNat <<< 8 % 2 ^ 16 = hi.toNat <<< 8
    rw [Nat.shiftLeft_eq, Nat.mod_eq_of_lt (by omega)]
  rw [UInt16.toNat_or, hshift, UInt8.toNat_toUInt16, ← Nat.shiftLeft_add_eq_or_of_lt hlo, Nat.shiftLeft_eq]

theorem toNat_high (u : UInt16) : (u >>> 8).toUInt8.toNat = u.toNat / 0x100 := by
  have hu := u.toNat_lt
  simp [Nat.shiftRight_eq_div_pow]
  omega

theorem unit_of_bytes (u : UInt16) : (u >>> 8).toUInt8.toUInt16 <<< 8 ||| u.toUInt8.toUInt16 = u := by
  rw [← UInt16.toNat_inj, toNat_unit, toNat_high, UInt16.toNat_toUInt8]
  omega

theorem high_of_unit (hi lo : UInt8) : ((hi.toUInt16 <<< 8 ||| lo.toUInt16) >>> 8).toUInt8 = hi := by
  have hlo := lo.toNat_lt
  rw [← UInt8.toNat_inj, toNat_high, toNat_unit]
  omega

theorem low_of_unit (hi lo : UInt8) : (hi.toUInt16 <<< 8 ||| lo.toUInt16).toUInt8 = lo := by
  have hlo := lo.toNat_lt
  rw [← UInt8.toNat_inj, UInt16.toNat_toUInt8, toNat_unit]
  omega

theorem decodePairs_unitBytes (big : Bool) (us : Units) : decodePairs big (us.flatMap (unitBytes big)) = us := by
  induction us with
  | nil => rfl
  | cons u us ih =>
    rw [List.flatMap_cons]
    cases big <;> exact congrArg₂ List.cons (unit_of_bytes u) ih

theorem length_unitBytes (big : Bool) (us : Units) : (us.flatMap (unitBytes big)).length = 2 * us.length := by
  induction us with
  | nil => rfl
  | cons u us ih =>
    have htwo : (unitBytes big u).length = 2 := by cases big <;> rfl
    rw [List.flatMap_cons, List.length_append, htwo, ih, List.length_cons]
    omega

/-- Bytes are an even number just if they are those of the units that they are read as. -/
theorem unitBytes_decodePairs : (decodePairs big bs).flatMap (unitBytes big) = bs ↔ Even bs.length := by
  refine ⟨fun h => h ▸ length_unitBytes big _ ▸ even_two_mul _, fun h => ?_⟩
  fun_induction decodePairs big bs with
  | case1 => rfl
  | case2 b => exact absurd h Nat.not_even_one
  | case3 a b rest hi lo ih =>
    have hrest : Even rest.length := by simpa [Nat.even_add_one] using h
    rw [List.flatMap_cons, ih hrest, unitBytes, high_of_unit, low_of_unit]
    cases big <;> rfl

/-! ### Units of one byte -/

theorem toUInt16_toUInt8 (h : u ≤ 0xff) : u.toUInt8.toUInt16 = u := by
  rw [UInt16.le_iff_toNat_le] at h
  have hu : u.toNat < 0x100 := Nat.lt_succ_of_le h
  rw [← UInt16.toNat_inj, UInt8.toNat_toUInt16, UInt16.toNat_toUInt8, Nat.mod_eq_of_lt hu]

/-- The bound lies behind the last unit that has a byte. -/
theorem narrow_eq (last : UInt16) (hbound : bound.toNat = last.toNat + 1) (u : UInt16) :
    narrow bound u = if last < u then 0x3f else u.toUInt8 := by
  unfold narrow
  simp only [UInt16.lt_iff_toNat_lt, hbound, Nat.lt_succ_iff]
  by_cases hu : u.toNat ≤ last.toNat
  · rw [if_pos hu, if_neg (Nat.not_lt.2 hu)]
  · rw [if_neg hu, if_pos (Nat.lt_of_not_le hu)]

theorem decode_narrow_latin1 (u : UInt16) : (narrow 0x100 u).toUInt16 = if 0xff < u then 0x3f else u := by
  rw [narrow_eq 0xff rfl]
  split
  · rfl
  · exact toUInt16_toUInt8 (UInt16.not_lt.1 ‹_›)

theorem decode_narrow_ascii (u : UInt16) :
    (if narrow 0x80 u < 0x80 then (narrow 0x80 u).toUInt16 else 0xfffd) = if 0x7f < u then 0x3f else u := by
  rw [narrow_eq 0x7f rfl]
  by_cases hu : 0x7f < u
  · rw [if_pos hu, if_pos hu]
    rfl
  · have hle : u.toNat ≤ 0x7f := UInt16.le_iff_toNat_le.1 (UInt16.not_lt.1 hu)
    have hbyte : u.toUInt8 < 0x80 := by
      rw [UInt8.lt_iff_toNat_lt, UInt16.toNat_toUInt8]
      exact Nat.lt_of_le_of_lt (Nat.mod_le _ _) (Nat.lt_succ_of_le hle)
    rw [if_neg hu, if_neg hu, if_pos hbyte, toUInt16_toUInt8]
    exact UInt16.le_iff_toNat_le.2 (Nat.le_trans hle (by decide))

/-- A text in which the units with some property are replaced. -/
theorem mapIdx_any (p : UInt16 → Bool) (a : UInt16) (us : Units) :
    (us.mapIdx fun i u => if us[i]?.any p then a else u) = us.map fun u => if p u then a else u := by
  refine List.ext_getElem? fun i => ?_
  rw [List.getElem?_mapIdx, List.getElem?_map]
  cases us[i]? <;> rfl

theorem map_eq_self_iff {α : Type} {f : α → α} {xs : List α} : xs.map f = xs ↔ ∀ x ∈ xs, f x = x := by
  induction xs <;> simp_all

/-! ### There and back -/

/-- What is read of a text that was written is this text, with `?` for each unit that the charset lacks. -/
theorem decode_encode (cs : Charset) (us : Units) :
    cs.decode (cs.encode us) = us.mapIdx fun i u => if cs.lacks us i then 0x3f else u := by
  have hall : us = us.mapIdx fun _ u => u := (List.mapIdx_eq_iff.2 fun i => by simp).symm
  cases cs with
  | utf8 => rw [encode, decode, Utf8.decode_encode, Units.ofChars_chars (a := 0x3f) rfl]; rfl
  | latin1 =>
    refine Eq.trans ?_ (mapIdx_any (0xff < ·) 0x3f us).symm
    rw [encode, decode, List.map_map]
    exact List.map_congr_left fun u _ => by simpa using decode_narrow_latin1 u
  | ascii =>
    refine Eq.trans ?_ (mapIdx_any (0x7f < ·) 0x3f us).symm
    rw [encode, decode, List.map_map]
    exact List.map_congr_left fun u _ => by simpa using decode_narrow_ascii u
  | utf16be => exact (decodePairs_unitBytes true us).trans hall
  | utf16le => exact (decodePairs_unitBytes false us).trans hall
  | utf16 => exact (decodePairs_unitBytes true us).trans hall

theorem replaced_eq_self_iff {last : UInt16} (hlast : 0x3f ≤ last) :
    (us.mapIdx fun i u => if us[i]?.any (last < ·) then 0x3f else u) = us ↔ ∀ u ∈ us, u ≤ last := by
  rw [mapIdx_any, map_eq_self_iff]
  refine forall₂_congr fun u _ => ?_
  rw [ite_eq_right_iff, decide_eq_true_eq, ← UInt16.not_lt]
  -- a unit behind the last one is not a question mark
  refine ⟨fun h hlt => ?_, fun h hlt => absurd hlt h⟩
  rw [← h hlt] at hlt
  exact UInt16.not_lt.2 hlast hlt

/-- A text that was written is read as it was just if the charset has bytes for all of it. -/
theorem decode_encode_eq_self_iff (cs : Charset) (us : Units) :
    cs.decode (cs.encode us) = us ↔ cs.Represents us := by
  cases cs with
  | utf8 => rw [decode_encode]; exact Units.paired_eq_self_iff (a := 0x3f) rfl rfl
  | latin1 => rw [decode_encode]; exact replaced_eq_self_iff (by decide)
  | ascii => rw [decode_encode]; exact replaced_eq_self_iff (by decide)
  | utf16be => exact iff_of_true (decodePairs_unitBytes true us) trivial
  | utf16le => exact iff_of_true (decodePairs_unitBytes false us) trivial
  | utf16 => exact iff_of_true (decodePairs_unitBytes true us) trivial

theorem narrow_toUInt16 (b : UInt8) : narrow 0x100 b.toUInt16 = b := by
  have hb : b.toUInt16 < 0x100 := by
    rw [UInt16.lt_iff_toNat_lt, UInt8.toNat_toUInt16]
    exact b.toNat_lt
  rw [narrow, if_pos hb, UInt8.toUInt8_toUInt16]

theorem encode_ascii_eq_self_iff (b : UInt8) :
    narrow 0x80 (if b < 0x80 then b.toUInt16 else 0xfffd) = b ↔ b ≤ 0x7f := by
  have hbound : b < 0x80 ↔ b ≤ 0x7f := by
    rw [UInt8.lt_iff_toNat_lt, UInt8.le_iff_toNat_le]
    exact Nat.lt_succ_iff
  by_cases hb : b < 0x80
  · have hunit : b.toUInt16 < 0x80 := by
      rw [UInt16.lt_iff_toNat_lt, UInt8.toNat_toUInt16]
      exact UInt8.lt_iff_toNat_lt.1 hb
    rw [if_pos hb, narrow, if_pos hunit]
    exact iff_of_true (UInt8.toUInt8_toUInt16 b) (hbound.1 hb)
  · rw [if_neg hb, ← hbound]
    refine iff_of_false ?_ hb
    rintro rfl
    exact hb (by decide)

/-- Bytes that were read are written as they were just if they are such as the charset writes. -/
theorem encode_decode_eq_self_iff (cs : Charset) (bs : List UInt8) :
    cs.encode (cs.decode bs) = bs ↔ cs.Writes bs := by
  cases cs with
  | utf8 =>
    rw [encode, decode, Units.chars_ofChars, Writes, Utf8.isValidUTF8_iff]
    refine ⟨fun h => ⟨_, h⟩, ?_⟩
    rintro ⟨cs, rfl⟩
    rw [Utf8.decode_encode]
  | latin1 =>
    rw [encode, decode, List.map_map, map_eq_self_iff]
    exact iff_of_true (fun b _ => narrow_toUInt16 b) trivial
  | ascii =>
    rw [encode, decode, List.map_map, map_eq_self_iff]
    exact forall₂_congr fun b _ => encode_ascii_eq_self_iff b
  | utf16be => exact unitBytes_decodePairs
  | utf16le => exact unitBytes_decodePairs
  | utf16 =>
    constructor
    · intro h
      rw [← h]
      refine ⟨?_, _, rfl⟩
      rw [encode, List.length_cons, List.length_cons, length_unitBytes]
      exact ⟨(decode utf16 bs).length + 1, by omega⟩
    · rintro ⟨heven, rest, rfl⟩
      have hrest : Even rest.length := by simpa [Nat.even_add] using heven
      exact congrArg (0xfe :: 0xff :: ·) (unitBytes_decodePairs.2 hrest)

/-- A charset reads what it has written of a text as this text, with `?` in place of each unit that it lacks, and so
just as it was if it lacks none. It writes what it has read of bytes as these bytes just if they are such as it
writes. -/
theorem round_trips (cs : Charset) :
    (∀ us, cs.decode (cs.encode us) = us.mapIdx fun i u => if cs.lacks us i then 0x3f else u) ∧
    (∀ us, cs.decode (cs.encode us) = us ↔ cs.Represents us) ∧
    ∀ bs, cs.encode (cs.decode bs) = bs ↔ cs.Writes bs :=
  ⟨cs.decode_encode, cs.decode_encode_eq_self_iff, cs.encode_decode_eq_self_iff⟩

end Jvm.Charset
