/-!
# Code points as bytes

A range of code points, written in UTF-8, is a union of products of ranges of bytes: each product gives
one range for every byte of a character.
-/

namespace Jvm.Regex

abbrev ByteRange := Nat × Nat

/-- The greatest code points that are written in one, two and three bytes. -/
def lastOfLength : List Nat := [0x7f, 0x7ff, 0xffff]

def utf8Bytes (n : Nat) : List Nat :=
  if n ≤ 0x7f then [n]
  else if n ≤ 0x7ff then [0xc0 + n / 0x40, 0x80 + n % 0x40]
  else if n ≤ 0xffff then [0xe0 + n / 0x1000, 0x80 + n / 0x40 % 0x40, 0x80 + n % 0x40]
  else [0xf0 + n / 0x40000, 0x80 + n / 0x1000 % 0x40, 0x80 + n / 0x40 % 0x40, 0x80 + n % 0x40]

/-- Where blocks of code points with the same first bytes are cut: a range that crosses into another
block of `size` has to end, or begin, with a whole block. -/
def blockCut (first last size : Nat) : Option Nat :=
  if first / size = last / size then none
  else if first % size ≠ 0 then some (first / size * size + size - 1)
  else if last % size ≠ size - 1 then some (last / size * size - 1)
  else none

/-- The last code point of the first part of a range that is no product of ranges of bytes. -/
def cutPoint (first last : Nat) : Option Nat :=
  match lastOfLength.find? fun n => first ≤ n && n < last with
  | some n => some n
  | none => if last ≤ 0x7f then none else [0x40, 0x1000, 0x40000].findSome? (blockCut first last)

/-- The products of ranges of bytes for a range of code points without surrogates. The range is cut at
most `fuel` times in a row. -/
def productsWithin : Nat → Nat → Nat → List (List ByteRange)
  | 0, _, _ => []
  | fuel + 1, first, last =>
    match cutPoint first last with
    | some n => productsWithin fuel first n ++ productsWithin fuel (n + 1) last
    | none => [(utf8Bytes first).zip (utf8Bytes last)]

/-- The products of ranges of bytes for a range of code points, in order. Surrogates have no bytes. -/
def byteProducts (r : Nat × Nat) : List (List ByteRange) :=
  let part (first last : Nat) := if first ≤ last then productsWithin 32 first last else []
  if r.1 < 0xe000 ∧ 0xd7ff < r.2 then part r.1 0xd7ff ++ part 0xe000 r.2 else part r.1 r.2

end Jvm.Regex
