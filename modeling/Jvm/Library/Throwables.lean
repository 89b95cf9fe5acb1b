import Jvm.Library.Arguments

/-!
# Exceptions

An exception is its message and the call stack of the place where it was made.
-/

namespace Jvm.Library

def constructThrowable (c : Call) (message : Option Units) : Exec Value := do
  c.constructThis (.throwable ⟨message, (← get).frames⟩)

def plainThrowable (c : Call) : Exec Value := constructThrowable c none

/-- An exception with a message, unless that is `null`. -/
def throwableOfMessage (c : Call) : Exec Value := do
  if (← c.argument 0).isNull then constructThrowable c none
  else constructThrowable c (some (← c.stringArgument 0))

def throwableTrace (c : Call) : Exec Value := do Exec.newTrace (← c.narrowThis View.throwable).trace

def throwableText (c : Call) : Exec Value := do Exec.newString (← Exec.display (← c.this))

def throwableMethods : List NativeMethod :=
  (["java/lang/Throwable", "java/lang/Exception", "java/lang/NullPointerException"].flatMap fun owner =>
    [native owner "<init>()V" plainThrowable,
      native owner "getStackTrace()[Ljava/lang/StackTraceElement;" throwableTrace,
      native owner "toString()Ljava/lang/String;" throwableText])
    ++ [native "java/lang/RuntimeException" "<init>(Ljava/lang/String;)V" throwableOfMessage,
      native "java/lang/BootstrapMethodError" "<init>()V" plainThrowable]

end Jvm.Library
