import Jvm.Digest.Padding

/-!
# SHA-1

The digest of 20 bytes. Each block is stretched to 80 words, one for each round on five words.
-/

namespace Jvm.Digest.Sha1

/-- The five words of the state. -/
structure State where
  a : UInt32
  b : UInt32
  c : UInt32
  d : UInt32
  e : UInt32

/-- The state before the first block. -/
def start : State := ⟨0x67452301, 0xefcdab89, 0x98badcfe, 0x10325476, 0xc3d2e1f0⟩

/-- Puts `count` further words on a schedule, whose newest word stands first: each is made from the
words 3, 8, 14 and 16 places before it. -/
def stretch : Nat → List UInt32 → List UInt32
  | 0, ws => ws
  | count + 1, ws =>
    let back (n : Nat) := ws.getD (n - 1) 0
    stretch count (rotate (back 3 ^^^ back 8 ^^^ back 14 ^^^ back 16) 1 :: ws)

/-- The 80 words of a block, in order. -/
def schedule (block : List UInt32) : List UInt32 := (stretch 64 block.reverse).reverse

/-- The mixing function of a round and its constant. -/
def mix (s : State) (round : Nat) : UInt32 × UInt32 :=
  match round / 20 with
  | 0 => ((s.b &&& s.c) ||| (~~~s.b &&& s.d), 0x5a827999)
  | 1 => (s.b ^^^ s.c ^^^ s.d, 0x6ed9eba1)
  | 2 => ((s.b &&& s.c) ||| (s.b &&& s.d) ||| (s.c &&& s.d), 0x8f1bbcdc)
  | _ => (s.b ^^^ s.c ^^^ s.d, 0xca62c1d6)

def round (s : State) (word : UInt32 × Nat) : State :=
  let (f, k) := mix s word.2
  ⟨rotate s.a 5 + f + s.e + k + word.1, s.a, rotate s.b 30, s.c, s.d⟩

def compress (s : State) (block : List UInt32) : State :=
  let t := (schedule block).zipIdx.foldl round s
  ⟨s.a + t.a, s.b + t.b, s.c + t.c, s.d + t.d, s.e + t.e⟩

def hash (message : List UInt8) : List UInt8 :=
  let s := (blocks .big message).foldl compress start
  [s.a, s.b, s.c, s.d, s.e].flatMap fun w => ByteOrder.big.bytes 4 w.toNat

end Jvm.Digest.Sha1
