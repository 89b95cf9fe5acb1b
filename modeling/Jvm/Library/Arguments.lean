import Jvm.Machine.Call

/-!
# Arguments and results of native methods

Reading the receiver and the arguments of a call, making the objects that native methods return, and
the text of an object.
-/

namespace Jvm

def native (owner signature : String) (f : Call → Exec Value) : NativeMethod :=
  ⟨owner, signature, fun c => Reply.value <$> f c⟩

namespace Call

/-- An argument of type `int`. -/
def intArgument (c : Call) (index : Nat) : Except Fault Int32 := do (← c.argument index).asInt "argument"

/-- An argument that is a string. -/
def stringArgument (c : Call) (index : Nat) : Exec Units := do
  Exec.narrow View.string (← c.argument index)

def narrowThis {α : Type} (c : Call) (view : View α) : Exec α := do Exec.narrow view (← c.this)

def modifyThis {α : Type} (c : Call) (view : View α) (f : α → α) : Exec Unit := do
  Exec.modify view (← c.this) f

/-- The bytes of an argument that is an array. -/
def bytesArgument (c : Call) (index : Nat) : Exec (List UInt8) := do
  (← Exec.narrow View.array (← c.argument index)).bytes

/-- The references of an argument that is an array; `null` stands for none. -/
def referencesArgument (c : Call) (index : Nat) : Exec (List Value) := do
  let v ← c.argument index
  if v.isNull then return [] else (← Exec.narrow View.array v).references

/-- Gives the receiver of a constructor its contents. The constructor of a superclass finds them there
already and leaves them as they are. -/
def constructThis (c : Call) (p : Payload) : Exec Value := do
  let this ← c.this
  let o ← Exec.readHeap (·.object this)
  if o.payload.isSome ∧ o.className ≠ c.member.owner then return .void
  else
    Exec.construct this c.member.owner p
    return .void

end Call

namespace Exec

def newBytes (bs : List UInt8) : Exec Value := allocate (.array (.ofBytes bs))

/-- Makes an array of references to objects of a class or array type. -/
def newReferences (component : String) (elements : List Value) : Exec Value :=
  let descriptor := if component.toList.head? = some '[' then component else "L" ++ component ++ ";"
  allocate (.array (.reference descriptor elements.toArray))

def newClass (name : String) : Exec Value := allocate (.classObject name)

def newStrings (texts : List String) : Exec Value := do
  let elements ← texts.mapM fun s => newString (Units.ofString s)
  newReferences "java/lang/String" elements

/-- Makes an array of the elements of a stack trace. -/
def newTrace (frames : List CallFrame) : Exec Value := do
  let elements ← frames.mapM fun f => allocate (.traceElement f)
  newReferences "java/lang/StackTraceElement" elements

def hostFailure {α : Type} (operation message : String) : Exec α := fail (.hostFailure operation message)

/-- Continues with a descriptor or ends with what is wrong with it. -/
def ofDescriptor {α : Type} : Except DescriptorError α → Exec α
  | .ok a => return a
  | .error e => failWith (.malformed (.descriptor e))

end Exec

def identityText (v : Value) : String := String.ofList (Text.hexDigits (v.ref?.getD 0))

/-- The text of an object of a class with given contents. -/
def Payload.display (p : Payload) (className : String) (v : Value) : Units :=
  match p with
  | .string text => text
  | .builder text => text.toList
  | .classObject name => Units.ofString ("class " ++ binaryName name)
  | .throwable t =>
    Units.ofString <|
      match t.message with
      | some message => binaryName className ++ ": " ++ message.toStringLossy
      | none => binaryName className
  | .traceElement f => Units.ofString f.text
  | .location url => Units.ofString url
  | .pattern p => Units.ofString p.source
  | _ => Units.ofString (binaryName className ++ "@" ++ identityText v)

/-- The text of a value that is `null` or an object. -/
def Exec.display (v : Value) : Exec Units := do
  if v.isNull then return Units.ofString "null"
  else
    let o ← readHeap (·.object v)
    match o.payload with
    | some p => return p.display o.className v
    | none => fail (.uninitializedObject o.className)

end Jvm
