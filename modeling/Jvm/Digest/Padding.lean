/-!
# Message padding

Both digests work on blocks of 64 bytes. A message is followed by the byte 0x80, zeros and its length
in bits as eight bytes, so that whole blocks come out; the two digests differ in the order of bytes.
-/

namespace Jvm.Digest

/-- The order of the bytes of a word. -/
inductive ByteOrder where
  | little
  | big
deriving DecidableEq, Repr

/-- The lowest `count` bytes of a number. -/
def ByteOrder.bytes (order : ByteOrder) (count n : Nat) : List UInt8 :=
  let low := (List.range count).map fun i => (n >>> (8 * i)).toUInt8
  match order with
  | little => low
  | big => low.reverse

def ByteOrder.number (order : ByteOrder) (bs : List UInt8) : Nat :=
  match order with
  | little => bs.foldr (fun b n => n * 256 + b.toNat) 0
  | big => bs.foldl (fun n b => n * 256 + b.toNat) 0

/-- The zeros between the byte 0x80 and the length. -/
def zeroCount (length : Nat) : Nat := (64 - (length + 9) % 64) % 64

def pad (order : ByteOrder) (message : List UInt8) : List UInt8 :=
  message ++ 0x80 :: List.replicate (zeroCount message.length) 0
    ++ order.bytes 8 (8 * message.length)

/-- The first `count` pieces of `size` bytes. -/
def chunks (size : Nat) : Nat → List UInt8 → List (List UInt8)
  | 0, _ => []
  | count + 1, bs => bs.take size :: chunks size count (bs.drop size)

/-- The blocks of a padded message, each as sixteen words. -/
def blocks (order : ByteOrder) (message : List UInt8) : List (List UInt32) :=
  let padded := pad order message
  (chunks 64 (padded.length / 64) padded).map fun block =>
    (chunks 4 16 block).map fun word => UInt32.ofNat (order.number word)

def rotate (x : UInt32) (n : UInt32) : UInt32 := x <<< n ||| x >>> (32 - n)

end Jvm.Digest
