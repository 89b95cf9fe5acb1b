import Jvm.OperandStack

/-!
# Arithmetic

Operations on numbers, and the instructions that apply them to the stack. Integers wrap, a shift counts
only the low bits of its distance, and a division of integers by zero is a fault. Numbers that are
converted to integers are cut off, and those that do not fit become the nearest that does; a NaN
becomes zero.
-/

namespace Jvm

namespace ArithOp

/-- The operation on `int`. -/
def onInt (op : ArithOp) (a b : Int32) : Except Fault Int32 :=
  match op with
  | add => .ok (a + b)
  | sub => .ok (a - b)
  | mul => .ok (a * b)
  | div => if b = 0 then .error .divisionByZero else .ok (a / b)
  | rem => if b = 0 then .error .divisionByZero else .ok (a % b)

/-- The operation on `long`. -/
def onLong (op : ArithOp) (a b : Int64) : Except Fault Int64 :=
  match op with
  | add => .ok (a + b)
  | sub => .ok (a - b)
  | mul => .ok (a * b)
  | div => if b = 0 then .error .divisionByZero else .ok (a / b)
  | rem => if b = 0 then .error .divisionByZero else .ok (a % b)

/-- The operation on `float`. -/
def onFloat (op : ArithOp) (a b : Float32) : Float32 :=
  match op with
  | add => a + b
  | sub => a - b
  | mul => a * b
  | div => a / b
  | rem => singleRem a b

/-- The operation on `double`. -/
def onDouble (op : ArithOp) (a b : Float) : Float :=
  match op with
  | add => a + b
  | sub => a - b
  | mul => a * b
  | div => a / b
  | rem => doubleRem a b

end ArithOp

namespace ShiftOp

/-- The shift of an `int`. -/
def onInt (op : ShiftOp) (a distance : Int32) : Int32 :=
  match op with
  | left => a <<< (distance &&& 0x1f)
  | right => a >>> (distance &&& 0x1f)
  | logicalRight => (a.toUInt32 >>> (distance &&& 0x1f).toUInt32).toInt32

/-- The shift of a `long`. -/
def onLong (op : ShiftOp) (a : Int64) (distance : Int32) : Int64 :=
  let d := (distance &&& 0x3f).toInt64
  match op with
  | left => a <<< d
  | right => a >>> d
  | logicalRight => (a.toUInt64 >>> d.toUInt64).toInt64

end ShiftOp

namespace BitOp

/-- The operation on `int`. -/
def onInt (op : BitOp) (a b : Int32) : Int32 :=
  match op with
  | and => a &&& b
  | or => a ||| b
  | xor => a ^^^ b

/-- The operation on `long`. -/
def onLong (op : BitOp) (a b : Int64) : Int64 :=
  match op with
  | and => a &&& b
  | or => a ||| b
  | xor => a ^^^ b

end BitOp

/-- The condition holds of two integers. -/
def Cond.holds (c : Cond) (a b : Int32) : Bool :=
  match c with
  | eq => a == b
  | ne => a != b
  | lt => decide (a < b)
  | ge => decide (b ≤ a)
  | gt => decide (b < a)
  | le => decide (a ≤ b)

/-- -1, 0 or 1 for less, equal or greater, and the given number if none of these holds. -/
def orderNumber (less equal greater : Bool) (otherwise : Int32) : Int32 :=
  if less then -1 else if equal then 0 else if greater then 1 else otherwise

namespace OperandStack

def arith (name : String) (op : ArithOp) : NumType → StackM Unit
  | .int => do
    let b ← popInt name
    let a ← popInt name
    match op.onInt a b with
    | .ok v => push (.int v)
    | .error f => throw f
  | .long => do
    let b ← popLong name
    let a ← popLong name
    match op.onLong a b with
    | .ok v => push (.long v)
    | .error f => throw f
  | .float => do
    let b ← popFloat name
    let a ← popFloat name
    push (.float (op.onFloat a b))
  | .double => do
    let b ← popDouble name
    let a ← popDouble name
    push (.double (op.onDouble a b))

def negate (name : String) : NumType → StackM Unit
  | .int => do push (.int (-(← popInt name)))
  | .long => do push (.long (-(← popLong name)))
  | .float => do push (.float (-(← popFloat name)))
  | .double => do push (.double (-(← popDouble name)))

/-- A shift; the distance is on top. -/
def shift (name : String) (op : ShiftOp) : IntSize → StackM Unit
  | .int => do
    let distance ← popInt name
    push (.int (op.onInt (← popInt name) distance))
  | .long => do
    let distance ← popInt name
    push (.long (op.onLong (← popLong name) distance))

def bits (name : String) (op : BitOp) : IntSize → StackM Unit
  | .int => do
    let b ← popInt name
    let a ← popInt name
    push (.int (op.onInt a b))
  | .long => do
    let b ← popLong name
    let a ← popLong name
    push (.long (op.onLong a b))

def convert (name : String) : Conversion → StackM Unit
  | .i2l => do push (.long (← popInt name).toInt64)
  | .i2f => do push (.float (← popInt name).toFloat32)
  | .i2d => do push (.double (← popInt name).toFloat)
  | .l2i => do push (.int (← popLong name).toInt32)
  | .l2f => do push (.float (← popLong name).toFloat32)
  | .l2d => do push (.double (← popLong name).toFloat)
  | .f2i => do push (.int (← popFloat name).toInt32)
  | .f2l => do push (.long (← popFloat name).toInt64)
  | .f2d => do push (.double (← popFloat name).toFloat)
  | .d2i => do push (.int (← popDouble name).toInt32)
  | .d2l => do push (.long (← popDouble name).toInt64)
  | .d2f => do push (.float (← popDouble name).toFloat32)
  | .i2b => do push (.int (← popInt name).toInt8.toInt32)
  | .i2c => do push (.int (Int32.ofNat (← popInt name).toUInt32.toUInt16.toNat))
  | .i2s => do push (.int (← popInt name).toInt16.toInt32)

/-- The order of two `long` values. -/
def compareLong (name : String) : StackM Unit := do
  let b ← popLong name
  let a ← popLong name
  push (.int (orderNumber (decide (a < b)) (a == b) true 0))

/-- The order of two `float` values; a NaN counts as greater if `nanGreater`, else as less. -/
def compareFloat (name : String) (nanGreater : Bool) : StackM Unit := do
  let b ← popFloat name
  let a ← popFloat name
  push (.int (orderNumber (decide (a < b)) (a == b) (decide (b < a)) (if nanGreater then 1 else -1)))

/-- The order of two `double` values; a NaN counts as greater if `nanGreater`, else as less. -/
def compareDouble (name : String) (nanGreater : Bool) : StackM Unit := do
  let b ← popDouble name
  let a ← popDouble name
  push (.int (orderNumber (decide (a < b)) (a == b) (decide (b < a)) (if nanGreater then 1 else -1)))

def testZero (name : String) (c : Cond) : StackM Bool := do return c.holds (← popInt name) 0

def testInts (name : String) (c : Cond) : StackM Bool := do
  let b ← popInt name
  return c.holds (← popInt name) b

end OperandStack

end Jvm
