/-!
# UTF-16 text

Text as a list of UTF-16 code units, in which a surrogate may stand alone. `ofString` writes
characters as units, `chars` reads them back and puts a chosen character where a surrogate is
unpaired.
-/

namespace Jvm

/-- Text as UTF-16 code units. -/
abbrev Units := List UInt16

namespace Units

/-- First half of a surrogate pair. -/
def isHigh (u : UInt16) : Bool := 0xd800 ≤ u && u ≤ 0xdbff

/-- Second half of a surrogate pair. -/
def isLow (u : UInt16) : Bool := 0xdc00 ≤ u && u ≤ 0xdfff

def pairChar (high low : UInt16) : Char :=
  Char.ofNat (0x10000 + (high.toNat - 0xd800) * 0x400 + (low.toNat - 0xdc00))

/-- One unit below U+10000, a surrogate pair from there on. -/
def ofChar (c : Char) : Units :=
  let n := c.toNat
  if n < 0x10000 then [n.toUInt16]
  else [(0xd800 + (n - 0x10000) / 0x400).toUInt16, (0xdc00 + (n - 0x10000) % 0x400).toUInt16]

def ofChars (cs : List Char) : Units := cs.flatMap ofChar

def ofString (s : String) : Units := ofChars s.toList

/-- The characters of a text, with `alone` in place of each unpaired surrogate. -/
def chars (alone : Char) : Units → List Char
  | [] => []
  | [u] => if isHigh u || isLow u then [alone] else [Char.ofNat u.toNat]
  | u :: v :: rest =>
    if isHigh u then
      if isLow v then pairChar u v :: chars alone rest else alone :: chars alone (v :: rest)
    else if isLow u then alone :: chars alone (v :: rest)
    else Char.ofNat u.toNat :: chars alone (v :: rest)

/-- The text as a string, with U+FFFD in place of each unpaired surrogate. -/
def toStringLossy (us : Units) : String := String.ofList (chars '\ufffd' us)

/-- No surrogate is unpaired. -/
def wellFormed : Units → Bool
  | [] => true
  | [u] => !isHigh u && !isLow u
  | u :: v :: rest =>
    if isHigh u then isLow v && wellFormed rest else !isLow u && wellFormed (v :: rest)

/-- The hash `31 * h + unit`, from the left and modulo 2^32. -/
def hash (us : Units) : Int32 := us.foldl (fun h u => h * 31 + Int32.ofNat u.toNat) 0

def hashString (s : String) : Int32 := hash (ofString s)

/-- The pieces that a text falls into from the left: surrogate pairs and single units. -/
def pieces : Units → List Units
  | [] => []
  | [u] => [[u]]
  | u :: v :: rest =>
    if isHigh u && isLow v then [u, v] :: pieces rest else [u] :: pieces (v :: rest)

/-- Puts the halves of each pair that stands backwards in order, from the left. -/
def mendPairs : Units → Units
  | [] => []
  | [u] => [u]
  | u :: v :: rest =>
    if isLow u && isHigh v then v :: u :: mendPairs rest else u :: mendPairs (v :: rest)

/-- The text backwards, with surrogate pairs kept in order. -/
def reversed (us : Units) : Units := mendPairs us.reverse

end Units

end Jvm
