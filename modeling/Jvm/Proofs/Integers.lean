import Jvm.Machine.Arithmetic
import Mathlib.Data.Int.Bitwise
import Mathlib.Data.Int.ModEq
import Mathlib.Tactic.Positivity
import Mathlib.Tactic.Zify

/-!
# Integer operations on words and on numbers

`onNumbers?` and `onNumbers` tell what an operation comes to on numbers without bounds; `ArithOp.onInt_eq`,
`ShiftOp.toInt_onInt`, `BitOp.toInt_onInt` and their companions for `long` say that the operation on words yields the
number with the same remainder in the range of the type. The operations on bits see a negative number as one with
ones in front (`toInt_bitwise`). `Divided` is what quotient and remainder have to do with each other
(`ArithOp.divided`).
-/

namespace Jvm

/-! ### Words as numbers -/

/-- Numbers with the same bits are equal. -/
theorem eq_of_testBit {m n : Int} (h : ∀ k, m.testBit k = n.testBit k) : m = n := by
  have hapart : ∀ i j : Nat, ¬ ∀ k, (i : Int).testBit k = (Int.negSucc j).testBit k := by
    intro i j hij
    -- from some place on, one has zeros and the other has ones
    have hk := hij (i + j)
    have hi : i.testBit (i + j) = false :=
      Nat.testBit_lt_two_pow (Nat.lt_two_pow_self.trans_le (Nat.pow_le_pow_right (by decide) (Nat.le_add_right i j)))
    have hj : j.testBit (i + j) = false :=
      Nat.testBit_lt_two_pow (Nat.lt_two_pow_self.trans_le (Nat.pow_le_pow_right (by decide) (Nat.le_add_left j i)))
    simp [Int.testBit, hi, hj] at hk
  cases m with
  | ofNat i =>
    cases n with
    | ofNat j => exact congrArg Int.ofNat (Nat.eq_of_testBit_eq h)
    | negSucc j => exact absurd h (hapart i j)
  | negSucc i =>
    cases n with
    | ofNat j => exact absurd (fun k => (h k).symm) (hapart j i)
    | negSucc j =>
      refine congrArg Int.negSucc (Nat.eq_of_testBit_eq fun k => ?_)
      have hk := h k
      simpa [Int.testBit] using hk

section

variable {w : Nat}

theorem testBit_toInt (x : BitVec w) (k : Nat) : x.toInt.testBit k = if k < w then x.getLsbD k else x.msb := by
  by_cases hmsb : x.msb
  · have hx : x.toInt = Int.negSucc (2 ^ w - (x.toNat + 1)) := by
      rw [BitVec.toInt_eq_msb_cond, if_pos hmsb, Int.negSucc_eq]
      have := x.isLt
      omega
    rw [hx, Int.testBit, Nat.testBit_two_pow_sub_succ x.isLt, BitVec.testBit_toNat]
    split <;> simp_all
  · have hx : x.toInt = (x.toNat : Int) := by rw [BitVec.toInt_eq_msb_cond, if_neg hmsb]
    rw [hx]
    change x.toNat.testBit k = _
    rw [BitVec.testBit_toNat]
    split
    · rfl
    · rename_i hk
      rw [BitVec.getLsbD_of_ge _ _ (Nat.le_of_not_lt hk)]
      simpa using hmsb

/-- What is done to every bit of words is done to the bits of their numbers, those in front included. -/
theorem toInt_bitwise (f : Bool → Bool → Bool) {x y z : BitVec w} (hw : 0 < w)
    (hz : ∀ k (h : k < w), z[k] = f x[k] y[k]) : z.toInt = Int.bitwise f x.toInt y.toInt := by
  refine eq_of_testBit fun k => ?_
  rw [Int.testBit_bitwise, testBit_toInt, testBit_toInt, testBit_toInt]
  split
  · rename_i hk
    rw [BitVec.getLsbD_eq_getElem hk, BitVec.getLsbD_eq_getElem hk, BitVec.getLsbD_eq_getElem hk, hz]
  · have hlast : w - 1 < w := by omega
    simp only [BitVec.msb_eq_getLsbD_last]
    rw [BitVec.getLsbD_eq_getElem hlast, BitVec.getLsbD_eq_getElem hlast, BitVec.getLsbD_eq_getElem hlast, hz]

theorem toInt_emod (x : BitVec w) : x.toInt % 2 ^ w = x.toNat := by
  have hlt : (x.toNat : Int) < 2 ^ w := by exact_mod_cast x.isLt
  have hbmod : x.toInt % ((2 ^ w : Nat) : Int) = x.toNat % ((2 ^ w : Nat) : Int) := by
    rw [BitVec.toInt_eq_toNat_bmod, Int.bmod_emod]
  push_cast at hbmod
  rw [hbmod, Int.emod_eq_of_lt (by omega) hlt]

theorem toInt_shiftLeft (x : BitVec w) (n : Nat) : (x <<< n).toInt = (x.toInt * 2 ^ n).bmod (2 ^ w) := by
  rw [BitVec.toInt_shiftLeft, Nat.shiftLeft_eq, BitVec.toInt_eq_toNat_bmod x, Int.bmod_mul_bmod]
  push_cast
  rfl

theorem toInt_ushiftRight (x : BitVec w) (n : Nat) :
    (x >>> n).toInt = (x.toInt % 2 ^ w / 2 ^ n).bmod (2 ^ w) := by
  rw [BitVec.toInt_eq_toNat_bmod, BitVec.toNat_ushiftRight, Nat.shiftRight_eq_div_pow, toInt_emod]
  push_cast
  rfl

/-- The low bits of a word. -/
theorem toInt_mask {k : Nat} (hk : k < w) (x : BitVec w) :
    (x &&& BitVec.ofNat w (2 ^ k - 1)).toInt = x.toInt % 2 ^ k := by
  have hdouble : 2 * 2 ^ k ≤ 2 ^ w := by
    rw [← Nat.pow_succ']
    exact Nat.pow_le_pow_right (by decide) hk
  have hpos := Nat.two_pow_pos k
  have hnat : (x &&& BitVec.ofNat w (2 ^ k - 1)).toNat = x.toNat % 2 ^ k := by
    rw [BitVec.toNat_and, BitVec.toNat_ofNat, Nat.mod_eq_of_lt (by omega), Nat.and_two_pow_sub_one_eq_mod]
  have hlt : x.toNat % 2 ^ k < 2 ^ k := Nat.mod_lt _ hpos
  have hdvd : (2 ^ k : Int) ∣ 2 ^ w := pow_dvd_pow 2 hk.le
  rw [BitVec.toInt_eq_toNat_of_lt (by omega), hnat, ← Int.emod_emod_of_dvd x.toInt hdvd, toInt_emod]
  push_cast
  rfl

end

/-! ### Distances of shifts -/

section

variable {w k : Nat} {distance width : BitVec w} {d : Int}

theorem toNat_distance (hk : k < w) (h : distance.toInt = d % 2 ^ k) : distance.toNat = (d % 2 ^ k).toNat := by
  have hpos : (0 : Int) < 2 ^ k := pow_pos (by decide) k
  have hlt : d % 2 ^ k < 2 ^ w := (Int.emod_lt_of_pos d hpos).trans (pow_lt_pow_right₀ (by decide) hk)
  have hnonneg := Int.emod_nonneg d hpos.ne'
  have hmod := toInt_emod distance
  rw [h, Int.emod_eq_of_lt hnonneg hlt] at hmod
  omega

/-- A distance below the width is left as it is. -/
theorem toNat_smod_distance (hk : k < w) (hwidth : width.toInt = 2 ^ k) (h : distance.toInt = d % 2 ^ k) :
    (distance.smod width).toNat = (d % 2 ^ k).toNat := by
  have hpos : (0 : Int) < 2 ^ k := pow_pos (by decide) k
  refine toNat_distance hk ?_
  rw [BitVec.toInt_smod, hwidth, h, Int.fmod_eq_of_lt (Int.emod_nonneg d hpos.ne') (Int.emod_lt_of_pos d hpos)]

theorem toNat_umod_distance (hk : k < w) (hwidth : width.toNat = 2 ^ k) (h : distance.toInt = d % 2 ^ k) :
    (distance % width).toNat = (d % 2 ^ k).toNat := by
  have hpos : (0 : Int) < 2 ^ k := pow_pos (by decide) k
  have hlt := Int.emod_lt_of_pos d hpos
  have hnonneg := Int.emod_nonneg d hpos.ne'
  rw [BitVec.toNat_umod, hwidth, toNat_distance hk h, Nat.mod_eq_of_lt]
  zify
  omega

end

/-! ### The two sizes -/

namespace IntSize

def bits : IntSize → Nat
  | int => 32
  | long => 64

def Word : IntSize → Type
  | int => Int32
  | long => Int64

def number : (size : IntSize) → size.Word → Int
  | int, x => Int32.toInt x
  | long, x => Int64.toInt x

/-- The word for a number, reduced to the range of the size. -/
def reduce : (size : IntSize) → Int → size.Word
  | int, x => Int32.ofInt x
  | long, x => Int64.ofInt x

variable (size : IntSize)

theorem number_reduce (x : Int) : size.number (size.reduce x) = x.bmod (2 ^ size.bits) := by
  cases size with
  | int => exact Int32.toInt_ofInt
  | long => exact Int64.toInt_ofInt

theorem reduce_number (x : size.Word) : size.reduce (size.number x) = x := by
  cases size with
  | int => exact Int32.ofInt_toInt x
  | long => exact Int64.ofInt_toInt x

theorem eq_reduce {x : size.Word} {n : Int} (h : size.number x = n.bmod (2 ^ size.bits)) : x = size.reduce n := by
  cases size with
  | int => exact Int32.toInt_inj.1 (h.trans Int32.toInt_ofInt.symm)
  | long => exact Int64.toInt_inj.1 (h.trans Int64.toInt_ofInt.symm)

theorem le_number (x : size.Word) : -2 ^ (size.bits - 1) ≤ size.number x := by
  cases size with
  | int => exact Int32.le_toInt x
  | long => exact Int64.le_toInt x

theorem number_lt (x : size.Word) : size.number x < 2 ^ (size.bits - 1) := by
  cases size with
  | int => exact Int32.toInt_lt x
  | long => exact Int64.toInt_lt x

end IntSize

/-! ### Operations -/

/-- The result of an operation on numbers; division cuts off, and there is none by zero. -/
def ArithOp.onNumbers? : ArithOp → Int → Int → Option Int
  | add, a, b => some (a + b)
  | sub, a, b => some (a - b)
  | mul, a, b => some (a * b)
  | div, a, b => if b = 0 then none else some (a.tdiv b)
  | rem, a, b => if b = 0 then none else some (a.tmod b)

/-- A shift by the distance modulo the number of bits; `logicalRight` sees the bits as a number that is not negative. -/
def ShiftOp.onNumbers (op : ShiftOp) (bits : Nat) (a distance : Int) : Int :=
  let k := (distance % bits).toNat
  match op with
  | left => a * 2 ^ k
  | right => a / 2 ^ k
  | logicalRight => a % 2 ^ bits / 2 ^ k

def BitOp.onBool : BitOp → Bool → Bool → Bool
  | and => (· && ·)
  | or => (· || ·)
  | xor => (· ^^ ·)

/-- The outcome on words for a result on numbers. -/
def IntSize.outcome (size : IntSize) : Option Int → Except Fault size.Word
  | some x => .ok (size.reduce x)
  | none => .error .divisionByZero

namespace ArithOp

theorem onInt_eq (op : ArithOp) (a b : Int32) : op.onInt a b = IntSize.int.outcome (op.onNumbers? a.toInt b.toInt) := by
  have hzero : b.toInt = 0 ↔ b = 0 := by rw [← Int32.toInt_inj, Int32.toInt_zero]
  cases op with
  | add => exact congrArg Except.ok (IntSize.int.eq_reduce (Int32.toInt_add a b))
  | sub => exact congrArg Except.ok (IntSize.int.eq_reduce (Int32.toInt_sub a b))
  | mul => exact congrArg Except.ok (IntSize.int.eq_reduce (Int32.toInt_mul a b))
  | div =>
    simp only [onInt, onNumbers?, hzero]
    split
    · rfl
    · exact congrArg Except.ok (IntSize.int.eq_reduce (Int32.toInt_div a b))
  | rem =>
    simp only [onInt, onNumbers?, hzero]
    split
    · rfl
    · rw [← Int32.toInt_mod]
      exact congrArg Except.ok (IntSize.int.reduce_number _).symm

theorem onLong_eq (op : ArithOp) (a b : Int64) :
    op.onLong a b = IntSize.long.outcome (op.onNumbers? a.toInt b.toInt) := by
  have hzero : b.toInt = 0 ↔ b = 0 := by rw [← Int64.toInt_inj, Int64.toInt_zero]
  cases op with
  | add => exact congrArg Except.ok (IntSize.long.eq_reduce (Int64.toInt_add a b))
  | sub => exact congrArg Except.ok (IntSize.long.eq_reduce (Int64.toInt_sub a b))
  | mul => exact congrArg Except.ok (IntSize.long.eq_reduce (Int64.toInt_mul a b))
  | div =>
    simp only [onLong, onNumbers?, hzero]
    split
    · rfl
    · exact congrArg Except.ok (IntSize.long.eq_reduce (Int64.toInt_div a b))
  | rem =>
    simp only [onLong, onNumbers?, hzero]
    split
    · rfl
    · rw [← Int64.toInt_mod]
      exact congrArg Except.ok (IntSize.long.reduce_number _).symm

end ArithOp

namespace ShiftOp

theorem onInt_eq (op : ShiftOp) (a d : Int32) :
    op.onInt a d = IntSize.int.reduce (op.onNumbers 32 a.toInt d.toInt) := by
  have hmask : (d &&& 0x1f).toBitVec.toInt = d.toInt % 2 ^ 5 := toInt_mask (k := 5) (by decide) d.toBitVec
  cases op with
  | left =>
    refine IntSize.int.eq_reduce ?_
    change (a <<< (d &&& 0x1f)).toBitVec.toInt = _
    rw [Int32.toBitVec_shiftLeft, BitVec.shiftLeft_eq', toNat_smod_distance (by decide) (by decide) hmask]
    exact toInt_shiftLeft a.toBitVec _
  | right =>
    have hshift : (a >>> (d &&& 0x1f)).toBitVec.toInt = right.onNumbers 32 a.toInt d.toInt := by
      rw [Int32.toBitVec_shiftRight, BitVec.sshiftRight_eq', toNat_smod_distance (by decide) (by decide) hmask,
        BitVec.toInt_sshiftRight, Int.shiftRight_eq_div_pow]
      rfl
    rw [← hshift]
    exact (IntSize.int.reduce_number _).symm
  | logicalRight =>
    refine IntSize.int.eq_reduce ?_
    change (a.toUInt32 >>> (d &&& 0x1f).toUInt32).toBitVec.toInt = _
    rw [UInt32.toBitVec_shiftRight, BitVec.ushiftRight_eq', Int32.toBitVec_toUInt32, Int32.toBitVec_toUInt32,
      toNat_umod_distance (by decide) (by decide) hmask]
    exact toInt_ushiftRight a.toBitVec _

theorem onLong_eq (op : ShiftOp) (a : Int64) (d : Int32) :
    op.onLong a d = IntSize.long.reduce (op.onNumbers 64 a.toInt d.toInt) := by
  have hmask : (d &&& 0x3f).toInt64.toBitVec.toInt = d.toInt % 2 ^ 6 :=
    (Int32.toInt_toInt64 _).trans (toInt_mask (k := 6) (by decide) d.toBitVec)
  cases op with
  | left =>
    refine IntSize.long.eq_reduce ?_
    change (a <<< (d &&& 0x3f).toInt64).toBitVec.toInt = _
    rw [Int64.toBitVec_shiftLeft, BitVec.shiftLeft_eq', toNat_smod_distance (by decide) (by decide) hmask]
    exact toInt_shiftLeft a.toBitVec _
  | right =>
    have hshift : (a >>> (d &&& 0x3f).toInt64).toBitVec.toInt = right.onNumbers 64 a.toInt d.toInt := by
      rw [Int64.toBitVec_shiftRight, BitVec.sshiftRight_eq', toNat_smod_distance (by decide) (by decide) hmask,
        BitVec.toInt_sshiftRight, Int.shiftRight_eq_div_pow]
      rfl
    rw [← hshift]
    exact (IntSize.long.reduce_number _).symm
  | logicalRight =>
    refine IntSize.long.eq_reduce ?_
    change (a.toUInt64 >>> (d &&& 0x3f).toInt64.toUInt64).toBitVec.toInt = _
    rw [UInt64.toBitVec_shiftRight, BitVec.ushiftRight_eq', Int64.toBitVec_toUInt64, Int64.toBitVec_toUInt64,
      toNat_umod_distance (by decide) (by decide) hmask]
    exact toInt_ushiftRight a.toBitVec _

end ShiftOp

namespace BitOp

variable {w : Nat}

def onWords (op : BitOp) (x y : BitVec w) : BitVec w :=
  match op with
  | and => x &&& y
  | or => x ||| y
  | xor => x ^^^ y

theorem toInt_onWords (op : BitOp) (x y : BitVec w) (hw : 0 < w) :
    (op.onWords x y).toInt = Int.bitwise op.onBool x.toInt y.toInt := by
  refine toInt_bitwise _ hw fun k hk => ?_
  cases op with
  | and => exact BitVec.getElem_and hk
  | or => exact BitVec.getElem_or hk
  | xor => exact BitVec.getElem_xor hk

theorem onInt_eq (op : BitOp) (a b : Int32) :
    op.onInt a b = IntSize.int.reduce (Int.bitwise op.onBool a.toInt b.toInt) := by
  have hbits : (op.onInt a b).toInt = Int.bitwise op.onBool a.toInt b.toInt := by
    cases op with
    | and => exact toInt_onWords and a.toBitVec b.toBitVec (by decide)
    | or => exact toInt_onWords or a.toBitVec b.toBitVec (by decide)
    | xor => exact toInt_onWords xor a.toBitVec b.toBitVec (by decide)
  rw [← hbits]
  exact (IntSize.int.reduce_number _).symm

theorem onLong_eq (op : BitOp) (a b : Int64) :
    op.onLong a b = IntSize.long.reduce (Int.bitwise op.onBool a.toInt b.toInt) := by
  have hbits : (op.onLong a b).toInt = Int.bitwise op.onBool a.toInt b.toInt := by
    cases op with
    | and => exact toInt_onWords and a.toBitVec b.toBitVec (by decide)
    | or => exact toInt_onWords or a.toBitVec b.toBitVec (by decide)
    | xor => exact toInt_onWords xor a.toBitVec b.toBitVec (by decide)
  rw [← hbits]
  exact (IntSize.long.reduce_number _).symm

end BitOp

/-! ### Division -/

/-- Quotient and remainder of a division: together they give back the dividend modulo `2 ^ bits`, the remainder is
smaller than the divisor and has no other sign than the dividend, and the quotient is cut off, unless this leads out
of the range. -/
structure Divided (bits : Nat) (a b quotient remainder : Int) : Prop where
  modEq : a ≡ quotient * b + remainder [ZMOD 2 ^ bits]
  small : |remainder| < |b|
  sign : remainder = 0 ∨ remainder.sign = a.sign
  truncated : quotient = a.tdiv b ∨ a = -2 ^ (bits - 1) ∧ b = -1 ∧ quotient = a

section

variable {a b bound : Int}

theorem natAbs_tmod_lt (hb : b ≠ 0) : (a.tmod b).natAbs < b.natAbs := by
  rw [Int.natAbs_tmod]
  exact Nat.mod_lt _ (Int.natAbs_pos.2 hb)

/-- A quotient leaves the range of its operands only for the least number and -1. -/
theorem tdiv_range (hle : -bound ≤ a) (hlt : a < bound) (hleast : ¬ (a = -bound ∧ b = -1)) :
    -bound ≤ a.tdiv b ∧ a.tdiv b < bound := by
  have habs : (a.tdiv b).natAbs = a.natAbs / b.natAbs := Int.natAbs_tdiv a b
  by_cases hone : b.natAbs = 1
  · rcases (by omega : b = 1 ∨ b = -1) with rfl | rfl
    · rw [Int.tdiv_one]
      omega
    · rw [Int.tdiv_neg, Int.tdiv_one]
      omega
  · by_cases hzero : b = 0
    · rw [hzero, Int.tdiv_zero]
      omega
    · have hhalf : a.natAbs / b.natAbs ≤ a.natAbs / 2 := Nat.div_le_div_left (by omega) (by decide)
      omega

end

namespace IntSize

variable {size : IntSize}

theorem bmod_of_range {n : Int} (hle : -2 ^ (size.bits - 1) ≤ n) (hlt : n < 2 ^ (size.bits - 1)) :
    n.bmod (2 ^ size.bits) = n := by
  cases size with
  | int => exact Int.bmod_eq_of_le hle hlt
  | long => exact Int.bmod_eq_of_le hle hlt

theorem bmod_two_pow (size : IntSize) :
    ((2 : Int) ^ (size.bits - 1)).bmod (2 ^ size.bits) = -2 ^ (size.bits - 1) := by
  cases size with
  | int => rfl
  | long => rfl

theorem bmod_tmod (a b : size.Word) (hb : size.number b ≠ 0) :
    ((size.number a).tmod (size.number b)).bmod (2 ^ size.bits) = (size.number a).tmod (size.number b) := by
  have hle := size.le_number b
  have hlt := size.number_lt b
  have hsmall := natAbs_tmod_lt (a := size.number a) hb
  exact bmod_of_range (by omega) (by omega)

theorem bmod_tdiv (a b : size.Word) :
    ((size.number a).tdiv (size.number b)).bmod (2 ^ size.bits) = (size.number a).tdiv (size.number b) ∨
    size.number a = -2 ^ (size.bits - 1) ∧ size.number b = -1 ∧
      ((size.number a).tdiv (size.number b)).bmod (2 ^ size.bits) = size.number a := by
  by_cases hleast : size.number a = -2 ^ (size.bits - 1) ∧ size.number b = -1
  · refine .inr ⟨hleast.1, hleast.2, ?_⟩
    rw [hleast.2, Int.tdiv_neg, Int.tdiv_one, hleast.1, neg_neg, bmod_two_pow]
  · have hrange := tdiv_range (size.le_number a) (size.number_lt a) hleast
    exact .inl (bmod_of_range hrange.1 hrange.2)

theorem divided (a b : size.Word) (hb : size.number b ≠ 0) :
    Divided size.bits (size.number a) (size.number b) (((size.number a).tdiv (size.number b)).bmod (2 ^ size.bits))
      (((size.number a).tmod (size.number b)).bmod (2 ^ size.bits)) := by
  rw [bmod_tmod a b hb]
  refine ⟨?_, ?_, ?_, bmod_tdiv a b⟩
  · have hquotient : ((size.number a).tdiv (size.number b)).bmod (2 ^ size.bits) ≡
        (size.number a).tdiv (size.number b) [ZMOD 2 ^ size.bits] := by
      have hemod := Int.bmod_emod (x := (size.number a).tdiv (size.number b)) (m := 2 ^ size.bits)
      push_cast at hemod
      exact hemod
    calc
      size.number a = (size.number a).tdiv (size.number b) * size.number b + (size.number a).tmod (size.number b) :=
        (Int.tdiv_mul_add_tmod _ _).symm
      _ ≡ _ [ZMOD 2 ^ size.bits] := (hquotient.symm.mul_right _).add_right _
  · rw [Int.abs_eq_natAbs, Int.abs_eq_natAbs]
    exact_mod_cast natAbs_tmod_lt hb
  · rw [Int.sign_tmod]
    split
    · exact .inl (Int.tmod_eq_zero_of_dvd ‹_›)
    · exact .inr rfl

end IntSize

end Jvm
