/-!
# UTF-8

`encode` writes characters as one to four bytes. `decode` reads any bytes: where they are no UTF-8,
the longest start of a character that is there becomes one U+FFFD.
-/

namespace Jvm.Utf8

def encodeChar (c : Char) : List UInt8 :=
  let n := c.toNat
  if n < 0x80 then [n.toUInt8]
  else if n < 0x800 then [(0xc0 + n / 0x40).toUInt8, (0x80 + n % 0x40).toUInt8]
  else if n < 0x10000 then
    [(0xe0 + n / 0x1000).toUInt8, (0x80 + n / 0x40 % 0x40).toUInt8, (0x80 + n % 0x40).toUInt8]
  else
    [(0xf0 + n / 0x40000).toUInt8, (0x80 + n / 0x1000 % 0x40).toUInt8,
      (0x80 + n / 0x40 % 0x40).toUInt8, (0x80 + n % 0x40).toUInt8]

def encode (cs : List Char) : List UInt8 := cs.flatMap encodeChar

def isTail (b : UInt8) : Bool := 0x80 ≤ b && b ≤ 0xbf

/-- The bytes that may follow the first byte of a character of three or four bytes; overlong forms,
surrogates and numbers above U+10FFFF are ruled out here. -/
def isSecond (first b : UInt8) : Bool :=
  if first == 0xe0 then 0xa0 ≤ b && b ≤ 0xbf
  else if first == 0xed then 0x80 ≤ b && b ≤ 0x9f
  else if first == 0xf0 then 0x90 ≤ b && b ≤ 0xbf
  else if first == 0xf4 then 0x80 ≤ b && b ≤ 0x8f
  else isTail b

/-- The six bits that a continuing byte carries. -/
def low6 (b : UInt8) : Nat := b.toNat % 0x40

/-- The first character of a non-empty text, and how many further bytes it takes up. -/
def first (b : UInt8) (rest : List UInt8) : Char × Nat :=
  let bad := '\ufffd'
  if b < 0x80 then (Char.ofNat b.toNat, 0)
  else if 0xc2 ≤ b && b ≤ 0xdf then
    match rest with
    | c :: _ => if isTail c then (Char.ofNat ((b.toNat - 0xc0) * 0x40 + low6 c), 1) else (bad, 0)
    | [] => (bad, 0)
  else if 0xe0 ≤ b && b ≤ 0xef then
    match rest with
    | c :: d :: _ =>
      if !isSecond b c then (bad, 0)
      else if !isTail d then (bad, 1)
      else (Char.ofNat ((b.toNat - 0xe0) * 0x1000 + low6 c * 0x40 + low6 d), 2)
    | [c] => if isSecond b c then (bad, 1) else (bad, 0)
    | [] => (bad, 0)
  else if 0xf0 ≤ b && b ≤ 0xf4 then
    match rest with
    | c :: d :: e :: _ =>
      if !isSecond b c then (bad, 0)
      else if !isTail d then (bad, 1)
      else if !isTail e then (bad, 2)
      else
        (Char.ofNat ((b.toNat - 0xf0) * 0x40000 + low6 c * 0x1000 + low6 d * 0x40 + low6 e), 3)
    | [c, d] => if !isSecond b c then (bad, 0) else if isTail d then (bad, 2) else (bad, 1)
    | [c] => if isSecond b c then (bad, 1) else (bad, 0)
    | [] => (bad, 0)
  else (bad, 0)

def decode : List UInt8 → List Char
  | [] => []
  | b :: rest => (first b rest).1 :: decode (rest.drop (first b rest).2)
termination_by bs => bs.length
decreasing_by simp only [List.length_drop, List.length_cons]; omega

end Jvm.Utf8
