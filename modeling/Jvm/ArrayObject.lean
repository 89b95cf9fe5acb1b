import Jvm.Value

/-!
# Arrays

Arrays of each primitive type and of references, with checked access. Values that are stored into
small elements lose their high bits.
-/

namespace Jvm

/-- An array of the machine. -/
inductive ArrayObject where
  | boolean (elements : Array Int8)
  | byte (elements : Array Int8)
  | char (elements : Array UInt16)
  | short (elements : Array Int16)
  | int (elements : Array Int32)
  | long (elements : Array Int64)
  | float (elements : Array Float32)
  | double (elements : Array Float)
  /-- References; the descriptor of their type is kept. -/
  | reference (component : String) (elements : Array Value)
deriving DecidableEq

namespace ArrayObject

def zeros (t : ArrayType) (length : Nat) : ArrayObject :=
  match t with
  | .boolean => boolean (Array.replicate length 0)
  | .char => char (Array.replicate length 0)
  | .float => float (Array.replicate length 0)
  | .double => double (Array.replicate length 0)
  | .byte => byte (Array.replicate length 0)
  | .short => short (Array.replicate length 0)
  | .int => int (Array.replicate length 0)
  | .long => long (Array.replicate length 0)

def ofComponent (t : FieldType) (length : Nat) : ArrayObject :=
  match t with
  | .boolean => zeros .boolean length
  | .byte => zeros .byte length
  | .char => zeros .char length
  | .short => zeros .short length
  | .int => zeros .int length
  | .long => zeros .long length
  | .float => zeros .float length
  | .double => zeros .double length
  | t => reference t.descriptor (Array.replicate length .null)

def ofBytes (bs : List UInt8) : ArrayObject := byte (bs.map (·.toInt8)).toArray

def size : ArrayObject → Nat
  | boolean es | byte es => es.size
  | char es => es.size
  | short es => es.size
  | int es => es.size
  | long es => es.size
  | float es => es.size
  | double es => es.size
  | reference _ es => es.size

def kind : ArrayObject → String
  | boolean _ => "boolean"
  | byte _ => "byte"
  | char _ => "char"
  | short _ => "short"
  | int _ => "int"
  | long _ => "long"
  | float _ => "float"
  | double _ => "double"
  | reference .. => "reference"

def descriptor : ArrayObject → String
  | boolean _ => "[Z"
  | byte _ => "[B"
  | char _ => "[C"
  | short _ => "[S"
  | int _ => "[I"
  | long _ => "[J"
  | float _ => "[F"
  | double _ => "[D"
  | reference component _ => "[" ++ component

def get? (a : ArrayObject) (i : Nat) : Option Value :=
  match a with
  | boolean es | byte es => es[i]?.map fun e => .int e.toInt32
  | char es => es[i]?.map fun e => .int (Int32.ofNat e.toNat)
  | short es => es[i]?.map fun e => .int e.toInt32
  | int es => es[i]?.map .int
  | long es => es[i]?.map .long
  | float es => es[i]?.map .float
  | double es => es[i]?.map .double
  | reference _ es => es[i]?

def position (a : ArrayObject) (index : Int32) : Except Fault Nat :=
  let i := index.toInt
  if 0 ≤ i ∧ i < a.size then .ok i.toNat else .error (.arrayIndex i a.size)

def load (a : ArrayObject) (index : Int32) : Except Fault Value :=
  match a.position index with
  | .ok i => .ok ((a.get? i).getD .null)
  | .error f => .error f

/-- The value if it is of the type of the elements. -/
def elementOf (a : ArrayObject) (v : Value) : Except Fault Value :=
  match a with
  | boolean _ | byte _ => .int <$> v.asInt "bastore"
  | char _ => .int <$> v.asInt "castore"
  | short _ => .int <$> v.asInt "sastore"
  | int _ => .int <$> v.asInt "iastore"
  | long _ => .long <$> v.asLong "lastore"
  | float _ => .float <$> v.asFloat "fastore"
  | double _ => .double <$> v.asDouble "dastore"
  | reference .. => v.asReference "aastore"

/-- The position of an index at which a value may be stored. -/
def storePosition (a : ArrayObject) (index : Int32) (v : Value) : Except Fault Nat := do
  let i ← a.position index
  let _ ← a.elementOf v
  return i

/-- The array with an element replaced, unless the value is of another type. -/
def put (a : ArrayObject) (i : Nat) (v : Value) : ArrayObject :=
  match a, v with
  | boolean es, .int x => boolean (es.setIfInBounds i x.toInt8)
  | byte es, .int x => byte (es.setIfInBounds i x.toInt8)
  | char es, .int x => char (es.setIfInBounds i x.toUInt32.toUInt16)
  | short es, .int x => short (es.setIfInBounds i x.toInt16)
  | int es, .int x => int (es.setIfInBounds i x)
  | long es, .long x => long (es.setIfInBounds i x)
  | float es, .float x => float (es.setIfInBounds i x)
  | double es, .double x => double (es.setIfInBounds i x)
  | reference c es, v => reference c (if v.isReferenceLike then es.setIfInBounds i v else es)
  | a, _ => a

/-- The array with the element at an index replaced. -/
def store (a : ArrayObject) (index : Int32) (v : Value) : Except Fault ArrayObject := do
  let i ← a.storePosition index v
  return a.put i v

/-- The bytes of an array of bytes or truth values. -/
def bytes : ArrayObject → Except Fault (List UInt8)
  | byte es | boolean es => .ok (es.toList.map (·.toUInt8))
  | a => .error (.arrayElementType "byte" a.kind)

def chars : ArrayObject → Except Fault Units
  | char es => .ok es.toList
  | a => .error (.arrayElementType "char" a.kind)

def references : ArrayObject → Except Fault (List Value)
  | reference _ es => .ok es.toList
  | a => .error (.arrayElementType "reference" a.kind)

/-- `target` with `count` elements from `offset` on replaced by those of `source` from `start` on. -/
def splice {α : Type} (target : Array α) (offset : Nat) (source : Array α) (start count : Nat) : Array α :=
  target.mapIdx fun i old =>
    if offset ≤ i ∧ i < offset + count then source[start + (i - offset)]?.getD old else old

/-- The sum of two indices; it stays within 32 bits. -/
def clampedSum (a b : Int32) : Int := min (max (a.toInt + b.toInt) (-0x80000000)) 0x7fffffff

/-- The array with `length` elements from `offset` on replaced by those of `source` from `start` on, which
may be the array itself. -/
def copyFrom (target : ArrayObject) (offset : Int32) (source : ArrayObject) (start length : Int32) :
    Except Fault ArrayObject :=
  if length < 0 then .error (.arrayIndex length.toInt source.size)
  else if start < 0 ∨ offset < 0 then .error (.arrayIndex (min start.toInt offset.toInt) target.size)
  else
    let first := start.toInt.toNat
    let low := offset.toInt.toNat
    let count := length.toInt.toNat
    if source.size < first + count then .error (.arrayIndex (clampedSum start length) source.size)
    else if target.size < low + count then .error (.arrayIndex (clampedSum offset length) target.size)
    else
      match target, source with
      | boolean t, boolean s => .ok (boolean (splice t low s first count))
      | byte t, byte s => .ok (byte (splice t low s first count))
      | char t, char s => .ok (char (splice t low s first count))
      | short t, short s => .ok (short (splice t low s first count))
      | int t, int s => .ok (int (splice t low s first count))
      | long t, long s => .ok (long (splice t low s first count))
      | float t, float s => .ok (float (splice t low s first count))
      | double t, double s => .ok (double (splice t low s first count))
      | reference c t, reference _ s => .ok (reference c (splice t low s first count))
      | t, s => .error (.arrayElementType t.kind s.kind)

end ArrayObject

end Jvm
