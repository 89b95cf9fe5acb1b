import Jvm.Machine.State

/-!
# Calls and native methods

A call names a method and carries its arguments. A native method answers a call with a value, or hands
on another call in place of its own. A catalog holds native methods by class, name and descriptor.
-/

namespace Jvm

/-- A call of a method. -/
structure Call where
  member : MemberRef
  kind : InvokeKind
  receiver : Option Value
  arguments : List Value
deriving DecidableEq

namespace Call

def onClass (member : MemberRef) (arguments : List Value) : Call := ⟨member, .static, none, arguments⟩

def onObject (kind : InvokeKind) (member : MemberRef) (receiver : Value) (arguments : List Value) : Call :=
  ⟨member, kind, some receiver, arguments⟩

/-- The call constructs an object. -/
def isConstructor (c : Call) : Bool := c.member.name == "<init>"

def this (c : Call) : Except Fault Value :=
  match c.receiver with
  | some v => .ok v
  | none => .error (.typeMismatch "receiver" "instance call" "static call")

def argument (c : Call) (index : Nat) : Except Fault Value :=
  match c.arguments[index]? with
  | some v => .ok v
  | none => .error (.argumentIndex index c.arguments.length)

/-- Nothing answers the call. -/
def unresolved (c : Call) : Fault := .unresolvedMethod c.member.owner c.member.name c.member.descriptor

end Call

/-- What a native method answers. -/
inductive Reply where
  | value (v : Value)
  /-- The answer is that of another call; if it has none, `null`. -/
  | forward (c : Call)

/-- The body of a native method. -/
abbrev Stub := Call → Exec Reply

/-- A native method of a class. -/
structure NativeMethod where
  owner : String
  signature : String
  run : Stub

namespace NativeMethod

def key (m : NativeMethod) : String := m.owner ++ "." ++ m.signature

/-- The order of class and signature. -/
def le (a b : NativeMethod) : Bool :=
  decide (a.owner < b.owner) || (a.owner == b.owner && decide (a.signature ≤ b.signature))

end NativeMethod

/-- Native methods. -/
structure Catalog where
  methods : List NativeMethod

namespace Catalog

def empty : Catalog := ⟨[]⟩

def find? (c : Catalog) (owner signature : String) : Option NativeMethod :=
  c.methods.find? fun m => m.owner == owner && m.signature == signature

def contains (c : Catalog) (owner signature : String) : Bool := (c.find? owner signature).isSome

def size (c : Catalog) : Nat := c.methods.length

/-- The error of a second method of one class and signature. -/
def duplicate (key : String) : Error := .configuration ("duplicate native method registration " ++ key)

def insert (c : Catalog) (m : NativeMethod) : Except Error Catalog :=
  if c.contains m.owner m.signature then .error (duplicate m.key) else .ok ⟨c.methods ++ [m]⟩

/-- The methods in order. -/
def sorted (c : Catalog) : List NativeMethod := c.methods.mergeSort NativeMethod.le

end Catalog

end Jvm
