/-!
# Numbers in other bases

Reading an integer: a sign, which may be missing, and at least one digit. Digits behind 9 are letters
in either case.
-/

namespace Jvm.Text

def digitValue? (c : Char) : Option Nat :=
  if '0' ≤ c && c ≤ '9' then some (c.toNat - '0'.toNat)
  else if 'a' ≤ c && c ≤ 'z' then some (c.toNat - 'a'.toNat + 10)
  else if 'A' ≤ c && c ≤ 'Z' then some (c.toNat - 'A'.toNat + 10)
  else none

/-- The value of digits of a base, behind those that have the value `n`. -/
def digitsFrom? (radix : Nat) : Nat → List Char → Option Nat
  | n, [] => some n
  | n, c :: rest => do
    let d ← digitValue? c
    if d < radix then digitsFrom? radix (n * radix + d) rest else none

/-- The value of at least one digit of a base. -/
def digits? (radix : Nat) (cs : List Char) : Option Nat :=
  if cs.isEmpty then none else digitsFrom? radix 0 cs

/-- The integer that a text writes in a base. -/
def integer? (radix : Nat) (cs : List Char) : Option Int :=
  match cs with
  | '-' :: rest => (digits? radix rest).map fun n => -(n : Int)
  | '+' :: rest => (digits? radix rest).map Int.ofNat
  | cs => (digits? radix cs).map Int.ofNat

end Jvm.Text
