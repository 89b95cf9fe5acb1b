import Jvm.Library.Arguments

/-!
# String builders

Builders hold units that grow and change in place. Methods that change a builder return it, so that
calls can be chained.
-/

namespace Jvm.Library

/-- Changes the units of the receiver and returns it. -/
def editBuilder (c : Call) (f : Array UInt16 → Array UInt16) : Exec Value := do
  let this ← c.this
  Exec.modify View.builder this f
  return this

def appendUnits (c : Call) (suffix : Units) : Exec Value := editBuilder c (· ++ suffix)

/-- A string argument, in which `null` stands for its name. -/
def textArgument (c : Call) (index : Nat) : Exec Units := do
  if (← c.argument index).isNull then return Units.ofString "null" else c.stringArgument index

/-- The low unit of an argument of type `int`. -/
def unitArgument (c : Call) (index : Nat) : Except Fault UInt16 :=
  (c.intArgument index).map fun n => n.toUInt32.toUInt16

/-- A builder of no units. -/
def emptyBuilder (c : Call) : Exec Value := c.constructThis (.builder #[])

def builderOf (c : Call) : Exec Value := do
  c.constructThis (.builder (← c.stringArgument 0).toArray)

/-- A builder of no units; the argument says how many are expected. -/
def builderOfCapacity (c : Call) : Exec Value := do
  let capacity ← c.intArgument 0
  if capacity < 0 then Exec.fail (.negativeArraySize capacity.toInt) else c.constructThis (.builder #[])

def appendInt (c : Call) : Exec Value := do
  let n ← c.intArgument 0
  appendUnits c (Units.ofString (toString n.toInt))

def appendChar (c : Call) : Exec Value := do appendUnits c [← unitArgument c 0]

def appendString (c : Call) : Exec Value := do appendUnits c (← textArgument c 0)

def appendObject (c : Call) : Exec Value := do appendUnits c (← Exec.display (← c.argument 0))

def builderText (c : Call) : Exec Value := do
  Exec.newString (← c.narrowThis View.builder).toList

def builderLength (c : Call) : Exec Value := return .ofLength (← c.narrowThis View.builder).size

/-- The place of an index that must lie inside. -/
def placeWithin (index : Int32) (length : Nat) : Except Fault Nat :=
  if 0 ≤ index.toInt ∧ index.toInt < length then .ok index.toInt.toNat
  else .error (.stringIndex index.toInt length)

def builderCharAt (c : Call) : Exec Value := do
  let index ← c.intArgument 0
  let units ← c.narrowThis View.builder
  let place ← placeWithin index units.size
  return .int (Int32.ofNat (units.getD place 0).toNat)

def setCharAt (c : Call) : Exec Value := do
  let index ← c.intArgument 0
  let unit ← unitArgument c 1
  let place ← placeWithin index (← c.narrowThis View.builder).size
  let _ ← editBuilder c (·.setIfInBounds place unit)
  return .void

/-- Puts the characters in the opposite order. -/
def reverse (c : Call) : Exec Value :=
  editBuilder c fun units => (Units.reversed units.toList).toArray

/-- Puts a string in front of the unit at an index. -/
def insertString (c : Call) : Exec Value := do
  let offset ← c.intArgument 0
  let inserted ← textArgument c 1
  let length := (← c.narrowThis View.builder).size
  let place ← Exec.ofExcept <|
    (placeWithin offset (length + 1)).mapError fun _ => .stringIndex offset.toInt length
  editBuilder c fun units => units.take place ++ inserted ++ units.drop place

def builderMethods : List NativeMethod :=
  let builder := native "java/lang/StringBuilder"
  let buffer := native "java/lang/StringBuffer"
  [builder "<init>()V" emptyBuilder,
    builder "<init>(Ljava/lang/String;)V" builderOf,
    builder "append(I)Ljava/lang/StringBuilder;" appendInt,
    builder "append(C)Ljava/lang/StringBuilder;" appendChar,
    builder "append(Ljava/lang/String;)Ljava/lang/StringBuilder;" appendString,
    builder "append(Ljava/lang/Object;)Ljava/lang/StringBuilder;" appendObject,
    builder "toString()Ljava/lang/String;" builderText,
    builder "length()I" builderLength,
    builder "charAt(I)C" builderCharAt,
    builder "setCharAt(IC)V" setCharAt,
    builder "reverse()Ljava/lang/StringBuilder;" reverse,
    buffer "<init>(Ljava/lang/String;)V" builderOf,
    buffer "<init>(I)V" builderOfCapacity,
    buffer "<init>()V" emptyBuilder,
    buffer "insert(ILjava/lang/String;)Ljava/lang/StringBuffer;" insertString,
    buffer "append(Ljava/lang/String;)Ljava/lang/StringBuffer;" appendString,
    buffer "append(C)Ljava/lang/StringBuffer;" appendChar,
    buffer "toString()Ljava/lang/String;" builderText]

end Jvm.Library
