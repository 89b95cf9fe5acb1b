import Jvm.Machine.Payload

/-!
# The heap

Objects by number, in the order in which they were made. An object has a class for good; its contents
are missing until a constructor brings them. Equal texts have one object when they are interned.
-/

namespace Jvm

/-- An object: its class, and its contents once it is constructed. -/
structure HeapObject where
  className : String
  payload : Option Payload
deriving DecidableEq

/-- The objects of a machine and the most there may be. -/
structure Heap where
  objects : Array HeapObject
  /-- The objects of interned texts. -/
  interned : List (Units × Nat)
  limit : Nat
deriving DecidableEq

namespace Heap

def empty (limit : Nat) : Heap := ⟨#[], [], limit⟩

def size (h : Heap) : Nat := h.objects.size

def idOf : Value → Except Fault Nat
  | .ref id => .ok id
  | .null => .error .nullReference
  | v => .error (v.mismatch "heap access" "reference")

def object (h : Heap) (v : Value) : Except Fault HeapObject := do
  let id ← idOf v
  match h.objects[id]? with
  | some o => .ok o
  | none => .error (.invalidReference id)

def className (h : Heap) (v : Value) : Except Fault String := return (← h.object v).className

/-- The object has contents. -/
def isConstructed (h : Heap) (v : Value) : Except Fault Bool := return (← h.object v).payload.isSome

def payload (h : Heap) (v : Value) : Except Fault Payload := do
  let o ← h.object v
  match o.payload with
  | some p => .ok p
  | none => .error (.uninitializedObject o.className)

def narrow {α : Type} (h : Heap) (view : View α) (v : Value) : Except Fault α := do
  let p ← h.payload v
  match view.read? p with
  | some a => .ok a
  | none => .error (.heapType view.kind p.kind)

/-- Refuses another object where there may be no more. -/
def checkRoom (h : Heap) : Except Fault Unit :=
  if h.limit ≤ h.size ∨ 0x100000000 ≤ h.size then .error (.heapLimit h.limit) else .ok ()

/-- Adds an object, which gets the next number. -/
def push (h : Heap) (className : String) (payload : Option Payload) : Value × Heap :=
  (.ref h.size, { h with objects := h.objects.push ⟨className, payload⟩ })

def setPayload (h : Heap) (id : Nat) (p : Payload) : Heap :=
  { h with objects := h.objects.modify id fun o => { o with payload := some p } }

/-- Changes the contents of an object where they are of one kind, in place. -/
def edit {α : Type} (h : Heap) (view : View α) (id : Nat) (f : α → α) : Heap :=
  { h with objects := h.objects.modify id fun o => { o with payload := o.payload.map (view.edited f) } }

/-- The number of an object that is still to be constructed; its class must be the expected one. -/
def unconstructed (h : Heap) (v : Value) (expected : String) : Except Fault Nat := do
  let o ← h.object v
  if o.className ≠ expected then .error (.constructorType expected o.className)
  else if o.payload.isSome then .error (.alreadyInitialized o.className)
  else idOf v

/-- The number of an interned text's object. -/
def interned? (h : Heap) (text : Units) : Option Nat := (h.interned.find? (·.1 == text)).map (·.2)

def pushInterned (h : Heap) (text : Units) : Value × Heap :=
  let entry := (text, h.size)
  let (v, h) := h.push "java/lang/String" (some (.string text))
  (v, { h with interned := entry :: h.interned })

end Heap

end Jvm
