import Jvm.Library.Arguments

/-!
# Reflection

Class objects and what they tell of the classes of the program, methods and fields as objects, and the
place from which the program was loaded. A method that is called by reflection is called like any
other; it must take and return objects only.
-/

namespace Jvm.Library

def thisClass (c : Call) : Exec String := c.narrowThis View.classObject

def programClass (name : String) : Exec ClassFile := do
  match (← read).program.get? name with
  | some cls => return cls
  | none => Exec.fail (.classNotFound (binaryName name))

/-- The descriptor of the type that a class object of a name stands for. -/
def classDescriptor (name : String) : String :=
  match name with
  | "byte" => "B"
  | "char" => "C"
  | "double" => "D"
  | "float" => "F"
  | "int" => "I"
  | "long" => "J"
  | "short" => "S"
  | "boolean" => "Z"
  | "void" => "V"
  | name => if name.toList.head? = some '[' then name else "L" ++ name ++ ";"

def internalName (name : String) : String :=
  String.ofList (name.toList.map fun c => if c = '.' then '/' else c)

def forName (c : Call) : Exec Value := do
  Exec.newClass (internalName (← c.stringArgument 0).toStringLossy)

def getClassName (c : Call) : Exec Value := do
  Exec.newString (Units.ofString (binaryName (← thisClass c)))

/-- The method of a class with a name and parameter types. -/
def getDeclaredMethod (c : Call) : Exec Value := do
  let owner ← thisClass c
  let name := (← c.stringArgument 0).toStringLossy
  let types ← (← c.referencesArgument 1).mapM fun v => Exec.narrow View.classObject v
  let parameters := "(" ++ String.join (types.map classDescriptor) ++ ")"
  let cls ← programClass owner
  match cls.methods.find? fun m =>
      m.name == name && parameters.toList.isPrefixOf m.descriptor.toList with
  | some m => Exec.allocate (.method { member := ⟨owner, m.name, m.descriptor⟩ })
  | none => Exec.fail (.exceptionThrown "java/lang/NoSuchMethodException")

/-- The methods of a class, without constructors and its set-up. -/
def getDeclaredMethods (c : Call) : Exec Value := do
  let owner ← thisClass c
  let cls ← programClass owner
  let elements ← (cls.methods.filter (!·.isInitializer)).mapM fun m =>
    Exec.allocate (.method { member := ⟨owner, m.name, m.descriptor⟩ })
  Exec.newReferences "java/lang/reflect/Method" elements

def getDeclaredFields (c : Call) : Exec Value := do
  let owner ← thisClass c
  let cls ← programClass owner
  let elements ← cls.fields.mapM fun f => Exec.allocate (.field ⟨owner, f.name, f.descriptor⟩)
  Exec.newReferences "java/lang/reflect/Field" elements

/-- All classes have the same loader, which is not modelled. -/
def getClassLoader (_ : Call) : Exec Value := return .null

/-- The superclass; a name without a package is taken for that of a type without one. -/
def getSuperclass (c : Call) : Exec Value := do
  let name ← thisClass c
  if name = "java/lang/Object" ∨ ¬ name.toList.contains '/' then return .null
  else
    match (← programClass name).superName with
    | some above => Exec.newClass above
    | none => return .null

def getInterfaces (c : Call) : Exec Value := do
  let cls ← programClass (← thisClass c)
  Exec.newReferences "java/lang/Class" (← cls.interfaces.mapM Exec.newClass)

/-- The domain of the file that the program was loaded from. -/
def getProtectionDomain (_ : Call) : Exec Value := do
  match (← read).file with
  | some file => Exec.allocateAs "java/security/ProtectionDomain" (.location ("file:" ++ file))
  | none =>
    Exec.hostFailure "Class.getProtectionDomain" "no originating file attached to the context"

def getCodeSource (c : Call) : Exec Value := do
  Exec.allocateAs "java/security/CodeSource" (.location (← c.narrowThis View.location))

def getLocation (c : Call) : Exec Value := do
  Exec.allocateAs "java/net/URL" (.location (← c.narrowThis View.location))

def openStream (c : Call) : Exec Value := do
  let url ← c.narrowThis View.location
  match url.toList with
  | 'f' :: 'i' :: 'l' :: 'e' :: ':' :: path =>
    let path := String.ofList path
    match (← read).files.find? (·.1 == path) with
    | some (_, bytes) => Exec.allocate (.source { bytes })
    | none =>
      Exec.hostFailure "URL.openStream" (path ++ ": No such file or directory (os error 2)")
  | _ => Exec.hostFailure "URL.openStream" ("refusing to open " ++ url)

def methodName (c : Call) : Exec Value := do
  Exec.newString (Units.ofString (← c.narrowThis View.method).member.name)

def methodTypes (m : MethodObject) : Exec MethodDescriptor :=
  Exec.ofDescriptor (MethodDescriptor.parse m.member.descriptor)

def getReturnType (c : Call) : Exec Value := do
  let d ← methodTypes (← c.narrowThis View.method)
  Exec.newClass d.returns.internalName

def getParameterTypes (c : Call) : Exec Value := do
  let d ← methodTypes (← c.narrowThis View.method)
  Exec.newReferences "java/lang/Class" (← d.parameters.mapM fun t => Exec.newClass t.internalName)

/-- Notes whether access checks are off. -/
def setAccessible (c : Call) : Exec Value := do
  let on := (← (← c.argument 0).asInt "Method.setAccessible") != 0
  c.modifyThis View.method ({ · with accessible := on })
  return .void

/-- The hash of a method: those of its class and its name. -/
def methodHash (c : Call) : Exec Value := do
  let m := (← c.narrowThis View.method).member
  return .int (Units.hashString (binaryName m.owner) ^^^ Units.hashString m.name)

/-- Calls a method by reflection. -/
def invokeMethod (c : Call) : Exec Reply := do
  let m ← c.narrowThis View.method
  let d ← methodTypes m
  match (d.parameters ++ [d.returns]).find? fun t => !t.isReference && !t.isVoid with
  | some t => Exec.fail (.typeMismatch "Method.invoke" "reference" t.internalName)
  | none =>
    let arguments ← c.referencesArgument 1
    if arguments.length ≠ d.parameters.length then
      Exec.fail (.exceptionThrown "java/lang/IllegalArgumentException")
    else
      let owner := (← read).program.get? m.member.owner
      let declared := owner.bind (·.method? m.member.name m.member.descriptor)
      if declared.any (·.isStatic) then return .forward (.onClass m.member arguments)
      else
        let receiver ← c.argument 0
        if receiver.isNull then Exec.fail .nullReference
        else return .forward (.onObject .virtual m.member receiver arguments)

def fieldName (c : Call) : Exec Value := do
  Exec.newString (Units.ofString (← c.narrowThis View.field).name)

def getType (c : Call) : Exec Value := do
  let f ← c.narrowThis View.field
  let t ← Exec.ofDescriptor (FieldType.parse f.descriptor)
  Exec.newClass t.internalName

/-- The native methods of classes, methods, fields and places of code. -/
def reflectionMethods : List NativeMethod :=
  let cls := native "java/lang/Class"
  let method := native "java/lang/reflect/Method"
  let field := native "java/lang/reflect/Field"
  [cls "forName(Ljava/lang/String;)Ljava/lang/Class;" forName,
    cls "getName()Ljava/lang/String;" getClassName,
    cls "getDeclaredMethod(Ljava/lang/String;[Ljava/lang/Class;)Ljava/lang/reflect/Method;"
      getDeclaredMethod,
    cls "getDeclaredMethods()[Ljava/lang/reflect/Method;" getDeclaredMethods,
    cls "getDeclaredFields()[Ljava/lang/reflect/Field;" getDeclaredFields,
    cls "getClassLoader()Ljava/lang/ClassLoader;" getClassLoader,
    cls "getSuperclass()Ljava/lang/Class;" getSuperclass,
    cls "getInterfaces()[Ljava/lang/Class;" getInterfaces,
    cls "getProtectionDomain()Ljava/security/ProtectionDomain;" getProtectionDomain,
    native "java/security/ProtectionDomain" "getCodeSource()Ljava/security/CodeSource;" getCodeSource,
    native "java/security/CodeSource" "getLocation()Ljava/net/URL;" getLocation,
    native "java/net/URL" "openStream()Ljava/io/InputStream;" openStream,
    method "getName()Ljava/lang/String;" methodName,
    method "getReturnType()Ljava/lang/Class;" getReturnType,
    method "getParameterTypes()[Ljava/lang/Class;" getParameterTypes,
    method "setAccessible(Z)V" setAccessible,
    method "hashCode()I" methodHash,
    ⟨"java/lang/reflect/Method", "invoke(Ljava/lang/Object;[Ljava/lang/Object;)Ljava/lang/Object;",
      invokeMethod⟩,
    field "getName()Ljava/lang/String;" fieldName,
    field "getType()Ljava/lang/Class;" getType]

end Jvm.Library
