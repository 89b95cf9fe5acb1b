/-!
# Shortest decimals

A positive binary number `m * 2 ^ q` stands for an interval of reals that round to it.
`Decimal.shortest` gives the decimal `d * 10 ^ e` with the fewest digits in that interval, and of two
with equally many the one nearer to the number.
-/

namespace Jvm

/-- `2 ^ e`, or 1 where the exponent is negative. -/
def powerOfTwo (e : Int) : Nat := Nat.pow 2 e.toNat

/-- `10 ^ e`, or 1 where the exponent is negative. -/
def powerOfTen (e : Int) : Nat := Nat.pow 10 e.toNat

/-- The number `digits * 10 ^ exponent`. -/
structure Decimal where
  digits : Nat
  exponent : Int
deriving DecidableEq, Repr

/-- The reals that round to a positive binary number, as a fraction over `den`: the number is
`mid / den`, the ends are `low / den` and `high / den`, and they belong to it when `closed`. -/
structure RoundingRange where
  low : Nat
  mid : Nat
  high : Nat
  den : Nat
  closed : Bool

namespace RoundingRange

/-- The range of `m * 2 ^ q`. The gap below a power of two is half of the gap above it, which
`narrowBelow` says. -/
def ofBinary (m : Nat) (q : Int) (narrowBelow : Bool) : RoundingRange :=
  let up := powerOfTwo q
  { low := (4 * m - if narrowBelow then 1 else 2) * up
    mid := 4 * m * up
    high := (4 * m + 2) * up
    den := 4 * powerOfTwo (-q)
    closed := m % 2 == 0 }

/-- `n * 10 ^ e` lies in the range. -/
def has (r : RoundingRange) (n : Nat) (e : Int) : Bool :=
  let x := n * powerOfTen e * r.den
  let s := powerOfTen (-e)
  if r.closed then r.low * s ≤ x && x ≤ r.high * s else r.low * s < x && x < r.high * s

/-- The multiple of `10 ^ e` just below or at the middle. -/
def floor (r : RoundingRange) (e : Int) : Nat :=
  r.mid * powerOfTen (-e) / (r.den * powerOfTen e)

/-- Of two neighbours on the grid `10 ^ e`, the upper one is at most as far from the middle. -/
def upperNearer (r : RoundingRange) (n : Nat) (e : Int) : Bool :=
  (2 * n + 1) * powerOfTen e * r.den ≤ 2 * r.mid * powerOfTen (-e)

/-- The multiple of `10 ^ e` in the range that is nearest to the middle, if there is one. -/
def onGrid (r : RoundingRange) (e : Int) : Option Nat :=
  let n := r.floor e
  match r.has n e, r.has (n + 1) e with
  | true, true => some (if r.upperNearer n e then n + 1 else n)
  | true, false => some n
  | false, true => some (n + 1)
  | false, false => none

end RoundingRange

namespace Decimal

/-- The exponent `k` with `10 ^ (k - 1) ≤ mid / den < 10 ^ k`, found by moving a first guess. -/
def magnitude (mid den : Nat) : Int :=
  let guess : Int := (Nat.toDigits 10 mid).length - (Nat.toDigits 10 den).length
  if mid * powerOfTen (-guess) < den * powerOfTen guess then guess else guess + 1

/-- The first grid with a multiple in the range, from `10 ^ e` to ever finer ones. -/
def search (r : RoundingRange) : Nat → Int → Decimal
  | 0, e => ⟨r.floor e, e⟩
  | more + 1, e =>
    match r.onGrid e with
    | some n => ⟨n, e⟩
    | none => search r more (e - 1)

/-- The shortest decimal that rounds to `m * 2 ^ q`; seventeen digits always suffice. -/
def shortest (m : Nat) (q : Int) (narrowBelow : Bool) : Decimal :=
  let r := RoundingRange.ofBinary m q narrowBelow
  search r 18 (magnitude r.mid r.den - 1)

def trim : Nat → Decimal → Decimal
  | 0, d => d
  | n + 1, d =>
    if d.digits != 0 && d.digits % 10 == 0 then trim n ⟨d.digits / 10, d.exponent + 1⟩ else d

/-- In positional notation: no exponent, and a point only before digits that are needed. -/
def positional (d : Decimal) : List Char :=
  let d := trim 20 d
  let ds := Nat.toDigits 10 d.digits
  if 0 ≤ d.exponent then ds ++ List.replicate d.exponent.toNat '0'
  else
    let places := (-d.exponent).toNat
    if ds.length ≤ places then
      '0' :: '.' :: List.replicate (places - ds.length) '0' ++ ds
    else ds.take (ds.length - places) ++ '.' :: ds.drop (ds.length - places)

end Decimal

end Jvm
