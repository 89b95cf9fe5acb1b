import Jvm.Value

/-!
# Local variables

The slots of a running method. A `long` or `double` takes up two slots; to store into either half of
one makes the whole unreadable.
-/

namespace Jvm

/-- Local variable slots. -/
structure Locals where
  slots : Array Value
deriving DecidableEq

namespace Locals

def ofCount (count : Nat) : Locals := ⟨Array.replicate count .top⟩

def size (l : Locals) : Nat := l.slots.size

/-- A value of the given words lies inside at an index. -/
def check (l : Locals) (index words : Nat) : Except Fault Unit :=
  if l.size < index + words then .error (.localIndex (index + words - 1) l.size) else .ok ()

def load (l : Locals) (index : Nat) : Except Fault Value := do
  l.check index 1
  match l.slots[index]?.getD .top with
  | .top | .void => .error (.typeMismatch "load" "initialized local" "top")
  | v => .ok v

/-- The value in front of an index reaches into it. -/
def reachesInto (l : Locals) (index : Nat) : Bool :=
  0 < index && (l.slots[index - 1]?.getD .top).width = .double

def store (l : Locals) (index : Nat) (v : Value) : Except Fault Locals := do
  l.check index v.width.words
  let slots := if l.reachesInto index then l.slots.setIfInBounds (index - 1) .top else l.slots
  let slots := slots.setIfInBounds index v
  .ok ⟨if v.width = .double then slots.setIfInBounds (index + 1) .top else slots⟩

end Locals

end Jvm
