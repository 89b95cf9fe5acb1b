import Jvm.Machine.Call
import Jvm.Machine.Subtyping

/-!
# Providers

Who answers calls, comparisons and type checks. A chain asks its providers in order, and the first that
can answer decides. Native methods come from a catalog, comparisons and the types of library objects
from rules of their own, and methods with code from the program.
-/

namespace Jvm

/-- Someone who answers. -/
inductive Provider where
  | native (catalog : Catalog)
  | comparison
  /-- The methods and classes of the program. -/
  | mapped

/-- Providers in the order in which they are asked. -/
structure Chain where
  providers : List Provider

/-- Equality of values, where numbers are compared as numbers. -/
def Value.same : Value → Value → Bool
  | .float a, .float b => singleEq a b
  | .double a, .double b => doubleEq a b
  | a, b => a == b

namespace Heap

/-- A value in the words of an error: the class of an object, else the type. -/
def describe (h : Heap) (v : Value) : String :=
  match v, h.className v with
  | .ref _, .ok name => name
  | v, _ => v.typeName

def classObjectName? (h : Heap) (v : Value) : Except Fault (Option String) := do
  match (← h.object v).payload with
  | some (.classObject name) => return some name
  | _ => return none

/-- References are equal if they lead to the same object or to class objects of one class. -/
def sameReference (h : Heap) (a b : Value) : Except Fault Bool :=
  if a.same b then .ok true
  else if a.isNull || b.isNull then .ok false
  else do
    match ← h.classObjectName? a, ← h.classObjectName? b with
    | some n, some m => return n == m
    | _, _ => return false

end Heap

namespace ClassDictionary

/-- The method with code that a call reaches: constructors in the named class only; a call on an object
first in the object's class, if the method found there is not static; else in the named class and
above it. -/
def target? (d : ClassDictionary) (h : Heap) (c : Call) : Option (ClassFile × Nat) :=
  let m := c.member
  if m.name.toList.head? = some '<' then d.methodWithBody? m.owner m.name m.descriptor
  else
    let ofObject := do
      let v ← c.receiver
      let _ ← v.ref?
      let className ← (h.className v).toOption
      let found ← d.resolveMethod? className m.name m.descriptor
      let method ← found.1.methods[found.2]?
      if method.isStatic then none else some found
    let viaObject := if c.kind = .virtual ∨ c.kind = .interface then ofObject else none
    viaObject.or (d.resolveMethod? m.owner m.name m.descriptor)

end ClassDictionary

namespace Provider

def name : Provider → String
  | native _ => "native"
  | comparison => "comparison"
  | mapped => "mapped"

/-- The provider answers the call. -/
def canInvoke (p : Provider) (d : ClassDictionary) (h : Heap) (c : Call) : Bool :=
  match p with
  | native catalog => catalog.contains c.member.owner c.member.signature
  | comparison => false
  | mapped => (d.target? h c).isSome

def canCompare (p : Provider) (a b : Value) : Bool :=
  match p with
  | comparison => a.isReferenceLike && b.isReferenceLike
  | _ => false

def compare (p : Provider) (h : Heap) (a b : Value) : Except Fault Bool :=
  match p with
  | comparison => h.sameReference a b
  | _ => .error (.unresolvedComparison (h.describe a) (h.describe b))

def canCheckType (p : Provider) (d : ClassDictionary) (h : Heap) (v : Value) : Bool :=
  let classIs (known : Bool) : Bool :=
    match v.ref?, h.className v with
    | some _, .ok name => d.contains name == known
    | _, _ => false
  match p with
  | native _ => false
  | comparison => v.isNull || classIs false
  | mapped => classIs true

/-- Checks whether a value is one of a type. -/
def instanceOf (p : Provider) (d : ClassDictionary) (h : Heap) (v : Value) (target : String) :
    Except Fault Bool :=
  match p with
  | native _ => .error (.unresolvedInstanceOf (h.describe v) target)
  | comparison => if v.isNull then .ok false else return d.isAssignable (← h.className v) target
  | mapped => return d.isAssignable (← h.className v) target

end Provider

namespace Chain

/-- The first method whose class and signature are among those before it. -/
def firstDuplicate? : List (String × String) → List NativeMethod → Option NativeMethod
  | _, [] => none
  | seen, m :: rest =>
    if seen.contains (m.owner, m.signature) then some m
    else firstDuplicate? ((m.owner, m.signature) :: seen) rest

/-- The native methods of a provider in order. -/
def nativeMethods : Provider → List NativeMethod
  | .native catalog => catalog.sorted
  | _ => []

/-- A chain of providers: there must be one at least, and no native method may occur twice. -/
def ofProviders (providers : List Provider) : Except Error Chain :=
  if providers.isEmpty then .error (.configuration "provider chain has no providers")
  else
    match firstDuplicate? [] (providers.flatMap nativeMethods) with
    | some m => .error (Catalog.duplicate m.key)
    | none => .ok ⟨providers⟩

/-- The provider that answers a call. -/
def provider? (chain : Chain) (d : ClassDictionary) (h : Heap) (c : Call) : Option Provider :=
  chain.providers.find? (·.canInvoke d h c)

def compare (chain : Chain) (h : Heap) (a b : Value) : Except Fault Bool :=
  match chain.providers.find? (·.canCompare a b) with
  | some p => p.compare h a b
  | none => .error (.unresolvedComparison (h.describe a) (h.describe b))

/-- Checks whether a value is one of a type. -/
def instanceOf (chain : Chain) (d : ClassDictionary) (h : Heap) (v : Value) (target : String) :
    Except Fault Bool :=
  match chain.providers.find? (·.canCheckType d h v) with
  | some p => p.instanceOf d h v target
  | none => .error (.unresolvedInstanceOf (h.describe v) target)

end Chain

end Jvm
