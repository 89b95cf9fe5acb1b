import Jvm.Decimal.Shortest

/-!
# Binary floating point numbers

What single and double precision numbers have in common: their parts, equality of numbers (in which
a NaN equals nothing and both zeros are equal), the remainder of a truncating division, and their
text.
-/

namespace Jvm

/-- The layout of a binary floating point format. -/
structure FloatFormat where
  /-- Stored bits of the significand. -/
  fraction : Nat
  /-- Bits of the exponent. -/
  exponent : Nat

namespace FloatFormat

/-- 32 bits. -/
def single : FloatFormat := ⟨23, 8⟩

/-- 64 bits. -/
def double : FloatFormat := ⟨52, 11⟩

/-- The exponent of the last place of the smallest numbers. -/
def lowest (f : FloatFormat) : Int := 2 - Nat.pow 2 (f.exponent - 1) - f.fraction

/-- The leading bit of a significand, which is not stored. -/
def leading (f : FloatFormat) : Nat := Nat.pow 2 f.fraction

/-- The exponent field of infinities and NaNs. -/
def topField (f : FloatFormat) : Nat := Nat.pow 2 f.exponent - 1

def magnitude (f : FloatFormat) (bits : Nat) : Nat := bits % Nat.pow 2 (f.fraction + f.exponent)

def isNegative (f : FloatFormat) (bits : Nat) : Bool := bits / Nat.pow 2 (f.fraction + f.exponent) % 2 == 1

def infinity (f : FloatFormat) : Nat := f.topField * f.leading

def isNaN (f : FloatFormat) (bits : Nat) : Bool := f.infinity < f.magnitude bits

/-- Both are numbers and they are equal as numbers. -/
def sameNumber (f : FloatFormat) (a b : Nat) : Bool :=
  !f.isNaN a && !f.isNaN b && (a == b || (f.magnitude a == 0 && f.magnitude b == 0))

/-- Significand `m` and exponent `q` of a finite number with the given magnitude bits:
its absolute value is `m * 2 ^ q`. -/
def parts (f : FloatFormat) (mag : Nat) : Nat × Int :=
  let field := mag / f.leading
  let frac := mag % f.leading
  if field = 0 then (frac, f.lowest)
  else (f.leading + frac, f.lowest + field - 1)

/-- The magnitude bits of `m * 2 ^ q`, for a value that the format holds exactly. -/
def pack (f : FloatFormat) (m : Nat) (q : Int) : Nat :=
  if m = 0 then 0
  else
    -- the exponent of the last place, when the leading bit stands in front of the fraction
    let place := max f.lowest (q + m.log2 - f.fraction)
    let sig := if place ≤ q then m * powerOfTwo (q - place) else m / powerOfTwo (place - q)
    if sig < f.leading then sig
    else (place - f.lowest + 1).toNat * f.leading + (sig - f.leading)

/-- What remains of `a` after taking away `b` as often as it goes, with the sign of `a`; all
arguments are bits. The result is exact. -/
def remainder (f : FloatFormat) (a b : Nat) : Nat :=
  let ma := f.magnitude a
  let mb := f.magnitude b
  let signBit := a - ma
  if f.isNaN a || f.isNaN b || ma == f.infinity || mb == 0 then f.infinity + 1
  else if mb == f.infinity then a
  else
    let (m, q) := f.parts ma
    let (n, p) := f.parts mb
    let e := min q p
    let r := m * powerOfTwo (q - e) % (n * powerOfTwo (p - e))
    signBit + f.pack r e

/-- The text of a number: the shortest decimal that reads back, in positional notation. -/
def text (f : FloatFormat) (bits : Nat) : String :=
  let mag := f.magnitude bits
  let sign := if f.isNegative bits then "-" else ""
  if f.isNaN bits then "NaN"
  else if mag == f.infinity then sign ++ "inf"
  else if mag == 0 then sign ++ "0"
  else
    let (m, q) := f.parts mag
    let narrowBelow := m == f.leading && f.lowest < q
    sign ++ String.ofList (Decimal.positional (Decimal.shortest m q narrowBelow))

end FloatFormat

def singleEq (a b : Float32) : Bool := FloatFormat.single.sameNumber a.toBits.toNat b.toBits.toNat

def doubleEq (a b : Float) : Bool := FloatFormat.double.sameNumber a.toBits.toNat b.toBits.toNat

def singleRem (a b : Float32) : Float32 :=
  Float32.ofBits (FloatFormat.single.remainder a.toBits.toNat b.toBits.toNat).toUInt32

def doubleRem (a b : Float) : Float :=
  Float.ofBits (FloatFormat.double.remainder a.toBits.toNat b.toBits.toNat).toUInt64

def singleText (x : Float32) : String := FloatFormat.single.text x.toBits.toNat

def doubleText (x : Float) : String := FloatFormat.double.text x.toBits.toNat

end Jvm
