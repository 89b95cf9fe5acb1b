import Jvm.Descriptor
import Jvm.Fault
import Jvm.Instruction
import Jvm.Words

/-!
# Values

What a stack entry or local variable holds. References name objects of a heap by number.
-/

namespace Jvm

/-- A value of a running method. -/
inductive Value where
  /-- The result of a method without one. -/
  | void
  /-- A local variable that holds nothing. -/
  | top
  | int (value : Int32)
  | long (value : Int64)
  | float (value : Float32)
  | double (value : Float)
  | null
  | ref (id : Nat)
deriving DecidableEq, Inhabited

namespace Value

/-- 1 for true and 0 for false. -/
def ofBool (b : Bool) : Value := int (if b then 1 else 0)

/-- A length or position as an `int`; one that does not fit becomes the largest. -/
def ofLength (n : Nat) : Value := int (Int32.ofNat (min n 0x7fffffff))

def typeName : Value → String
  | void => "void"
  | top => "top"
  | int _ => "int"
  | long _ => "long"
  | float _ => "float"
  | double _ => "double"
  | null => "null"
  | ref _ => "reference"

/-- Two words for `long` and `double`. -/
def width : Value → Width
  | long _ | double _ => .double
  | _ => .single

instance : HasWidth Value := ⟨Value.width⟩

/-- The value is `null`. -/
def isNull : Value → Bool
  | null => true
  | _ => false

/-- `null` or a reference. -/
def isReferenceLike : Value → Bool
  | null | ref _ => true
  | _ => false

def ref? : Value → Option Nat
  | ref id => some id
  | _ => none

/-- The fault of an operation that expects another type. -/
def mismatch (v : Value) (operation expected : String) : Fault :=
  .typeMismatch operation expected v.typeName

/-- The value as an `int`. -/
def asInt (operation : String) : Value → Except Fault Int32
  | int value => .ok value
  | v => .error (v.mismatch operation "int")

/-- The value as a `long`. -/
def asLong (operation : String) : Value → Except Fault Int64
  | long value => .ok value
  | v => .error (v.mismatch operation "long")

/-- The value as a `float`. -/
def asFloat (operation : String) : Value → Except Fault Float32
  | float value => .ok value
  | v => .error (v.mismatch operation "float")

/-- The value as a `double`. -/
def asDouble (operation : String) : Value → Except Fault Float
  | double value => .ok value
  | v => .error (v.mismatch operation "double")

/-- The value if it is `null` or a reference. -/
def asReference (operation : String) (v : Value) : Except Fault Value :=
  if v.isReferenceLike then .ok v else .error (v.mismatch operation "reference")

/-- The name of the values that a type admits. -/
def shapeName : FieldType → String
  | .boolean | .byte | .char | .short | .int => "int"
  | .long => "long"
  | .float => "float"
  | .double => "double"
  | .object _ | .array _ => "reference"
  | .void => "void"

/-- The type admits the value. -/
def fits (v : Value) (t : FieldType) : Bool :=
  match t, v with
  | .boolean, int _ | .byte, int _ | .char, int _ | .short, int _ | .int, int _ => true
  | .long, long _ => true
  | .float, float _ => true
  | .double, double _ => true
  | .object _, v | .array _, v => v.isReferenceLike
  | .void, void => true
  | _, _ => false

/-- The value if the type admits it. -/
def asType (t : FieldType) (operation : String) (v : Value) : Except Fault Value :=
  if v.fits t then .ok v else .error (v.mismatch operation (shapeName t))

/-- The value of a field before anything is stored. -/
def initial : FieldType → Value
  | .boolean | .byte | .char | .short | .int => int 0
  | .long => long 0
  | .float => float 0
  | .double => double 0
  | .object _ | .array _ => null
  | .void => void

def text : Value → String
  | void => "void"
  | top => "top"
  | int value => toString value.toInt
  | long value => toString value.toInt ++ "L"
  | float value => singleText value ++ "F"
  | double value => doubleText value ++ "D"
  | null => "null"
  | ref id => s!"@{id}"

end Value

end Jvm
