import Jvm.Library.Arguments
import Jvm.Text.Radix

/-!
# Objects, threads and numbers

Plain objects, the clock, copying between arrays, stack traces of threads, reading numbers, and the
size of a constant pool.
-/

namespace Jvm.Library

def getClass (c : Call) : Exec Value := do Exec.newClass (← Exec.className (← c.this))

/-- The time, as far as a long number goes. A clock that shows a time before 1970 is a failure. -/
def currentTimeMillis (_ : Call) : Exec Value := do
  let time ← Exec.readClock
  if time < 0 then Exec.hostFailure "System.currentTimeMillis" "second time provided was later than self"
  else return .long (Int64.ofInt (min time Int64.maxValue.toInt))

/-- Copies elements of one array to another, or to other places of the same. -/
def arraycopy (c : Call) : Exec Value := do
  let source ← Exec.narrow View.array (← c.argument 0)
  let start ← c.intArgument 1
  let destination ← c.argument 2
  let offset ← c.intArgument 3
  let length ← c.intArgument 4
  let target ← Exec.narrow View.array destination
  let copied ← target.copyFrom offset source start length
  Exec.modify View.array destination fun _ => copied
  return .void

def currentThread (_ : Call) : Exec Value := Exec.allocateAs "java/lang/Thread" .plain

/-- The call stack, with the frame of the question itself on top. -/
def threadStackTrace (_ : Call) : Exec Value := do
  Exec.pushFrame "java/lang/Thread" "getStackTrace" 0
  let frames := (← get).frames
  let _ ← Exec.popFrame
  Exec.newTrace frames

/-- The class of an element of a stack trace. -/
def frameClassName (c : Call) : Exec Value := do
  Exec.newString (Units.ofString (← c.narrowThis View.traceElement).className)

/-- The method of an element of a stack trace. -/
def frameMethodName (c : Call) : Exec Value := do
  Exec.newString (Units.ofString (← c.narrowThis View.traceElement).methodName)

/-- The line of an element of a stack trace. -/
def frameLineNumber (c : Call) : Exec Value := return .int (← c.narrowThis View.traceElement).line

/-- The integer that a text writes in a base, if the base is one and the integer is at least `least`
and below `bound`. -/
def parseInteger (text : Units) (radix : Int32) (least bound : Int) : Except Fault Int :=
  let input := text.toStringLossy
  match (if 2 ≤ radix ∧ radix ≤ 36 then Text.integer? radix.toInt.toNat input.toList else none) with
  | some n => if least ≤ n ∧ n < bound then .ok n else .error (.numberFormat input)
  | none => .error (.numberFormat input)

/-- The `long` that a text writes in a base. -/
def parseLongText (text : Units) (radix : Int32) : Except Fault Value :=
  (parseInteger text radix (-0x8000000000000000) 0x8000000000000000).map fun n => .long (Int64.ofInt n)

/-- The `int` that a text writes in base 10. -/
def parseIntText (text : Units) : Except Fault Value :=
  (parseInteger text 10 (-0x80000000) 0x80000000).map fun n => .int (Int32.ofInt n)

/-- A `long` in base 10. -/
def parseLong (c : Call) : Exec Value := do parseLongText (← c.stringArgument 0) 10

/-- A `long` in a given base. -/
def parseLongRadix (c : Call) : Exec Value := do
  let text ← c.stringArgument 0
  parseLongText text (← c.intArgument 1)

/-- An `int` in base 10. -/
def parseInt (c : Call) : Exec Value := do parseIntText (← c.stringArgument 0)

def languageAccess (_ : Call) : Exec Value := Exec.allocateAs "sun/misc/JavaLangAccess" .plain

/-- The constant pool of a class of the program. -/
def constantPoolOf (c : Call) : Exec Value := do
  let name ← Exec.narrow View.classObject (← c.argument 0)
  match (← read).program.get? name with
  | none => Exec.fail (.classNotFound name)
  | some cls => Exec.allocate (.constantPool ⟨name, Int32.ofNat cls.poolSize.toNat⟩)

def constantPoolSize (c : Call) : Exec Value := return .int (← c.narrowThis View.constantPool).size

/-- The native methods of objects, threads and numbers. -/
def objectMethods : List NativeMethod :=
  [native "java/lang/Object" "<init>()V" (·.constructThis .plain),
    native "java/lang/Object" "getClass()Ljava/lang/Class;" getClass,
    native "java/lang/System" "currentTimeMillis()J" currentTimeMillis,
    native "java/lang/System" "arraycopy(Ljava/lang/Object;ILjava/lang/Object;II)V" arraycopy,
    native "java/lang/Thread" "currentThread()Ljava/lang/Thread;" currentThread,
    native "java/lang/Thread" "getStackTrace()[Ljava/lang/StackTraceElement;" threadStackTrace,
    native "java/lang/StackTraceElement" "getClassName()Ljava/lang/String;" frameClassName,
    native "java/lang/StackTraceElement" "getMethodName()Ljava/lang/String;" frameMethodName,
    native "java/lang/StackTraceElement" "getLineNumber()I" frameLineNumber,
    native "java/lang/Long" "parseLong(Ljava/lang/String;)J" parseLong,
    native "java/lang/Long" "parseLong(Ljava/lang/String;I)J" parseLongRadix,
    native "java/lang/Integer" "parseInt(Ljava/lang/String;)I" parseInt,
    native "sun/misc/SharedSecrets" "getJavaLangAccess()Lsun/misc/JavaLangAccess;" languageAccess,
    native "sun/misc/JavaLangAccess" "getConstantPool(Ljava/lang/Class;)Lsun/reflect/ConstantPool;"
      constantPoolOf,
    native "sun/reflect/ConstantPool" "getSize()I" constantPoolSize]

end Jvm.Library
