import Jvm.Library.Arguments

/-!
# Method handles

Handles and call sites record the method that they lead to. Nothing here calls it.
-/

namespace Jvm.Library

def methodTypeOf (c : Call) : Exec Value := do
  let descriptor := (← c.stringArgument 0).toStringLossy
  match MethodDescriptor.parse descriptor with
  | .ok _ => Exec.allocate (.methodType descriptor)
  | .error _ => Exec.fail (.invalidDescriptor descriptor)

/-- The handle of a method of a class, by its name and type. -/
def findHandle (isStatic : Bool) (c : Call) : Exec Value := do
  let owner ← Exec.narrow View.classObject (← c.argument 0)
  let name := (← c.stringArgument 1).toStringLossy
  let descriptor ← Exec.narrow View.methodType (← c.argument 2)
  Exec.allocate (.methodHandle ⟨⟨owner, name, descriptor⟩, isStatic⟩)

/-- A handle adapted to a type is the handle itself. -/
def handleAsType (c : Call) : Exec Value := do
  let _ ← c.narrowThis View.methodHandle
  c.this

/-- A call site that leads to a handle for good. -/
def callSiteOf (c : Call) : Exec Value := do
  let target ← Exec.narrow View.methodHandle (← c.argument 0)
  c.constructThis (.callSite target)

/-- The native methods of method types, handles and call sites. -/
def handleMethods : List NativeMethod :=
  let lookup (name : String) :=
    native "java/lang/invoke/MethodHandles$Lookup" (name ++
      "(Ljava/lang/Class;Ljava/lang/String;Ljava/lang/invoke/MethodType;)Ljava/lang/invoke/MethodHandle;")
  [native "java/lang/invoke/MethodType"
      "fromMethodDescriptorString(Ljava/lang/String;Ljava/lang/ClassLoader;)Ljava/lang/invoke/MethodType;"
      methodTypeOf,
    lookup "findStatic" (findHandle true),
    lookup "findVirtual" (findHandle false),
    native "java/lang/invoke/MethodHandle"
      "asType(Ljava/lang/invoke/MethodType;)Ljava/lang/invoke/MethodHandle;" handleAsType,
    native "java/lang/invoke/ConstantCallSite" "<init>(Ljava/lang/invoke/MethodHandle;)V" callSiteOf]

end Jvm.Library
