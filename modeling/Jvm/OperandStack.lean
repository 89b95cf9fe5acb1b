import Jvm.Value

/-!
# Operand stacks

The stack of a running method, with a limit on its entries. An operation yields its result or a fault
and, either way, the stack that it leaves: a typed `popAs` takes the value that it then refuses, and
`dup` leaves the copies in place that go over the limit; every other failure leaves the stack as it
was.
-/

namespace Jvm

/-- A stack of values, top first. Its depth is kept, so that a push does not count. -/
structure OperandStack where
  limit : Nat
  values : List Value
  depth : Nat := values.length
  depth_eq : depth = values.length := by rfl

abbrev StackM := EStateM Fault OperandStack

namespace OperandStack

def empty (limit : Nat) : OperandStack := { limit, values := [] }

def push (v : Value) : StackM Unit := fun s =>
  if v = .void ∨ v = .top then .error (v.mismatch "push" "value") s
  else if s.limit ≤ s.depth then .error (.stackOverflow s.limit) s
  else
    .ok () { limit := s.limit, values := v :: s.values, depth := s.depth + 1
             depth_eq := by simp [s.depth_eq] }

def pop : StackM Value := fun s =>
  match h : s.values with
  | [] => .error .stackUnderflow s
  | v :: rest =>
    .ok v { limit := s.limit, values := rest, depth := s.depth - 1
            depth_eq := by simp [s.depth_eq, h] }

def peek : StackM Value := fun s =>
  match s.values with
  | [] => .error .stackUnderflow s
  | v :: _ => .ok v s

/-- Takes `n` values and returns them bottom first. -/
def popN (n : Nat) : StackM (List Value) := fun s =>
  if s.depth < n then .error .stackUnderflow s
  else
    .ok (s.values.take n).reverse
      { limit := s.limit, values := s.values.drop n, depth := s.depth - n
        depth_eq := by simp [s.depth_eq] }

/-- Drops `n` words. -/
def popWords (instruction : String) (n : Nat) : StackM Unit := fun s =>
  match h : Words.takeWords instruction n s.values with
  | .error f => .error f s
  | .ok (taken, rest) =>
    .ok () { limit := s.limit, values := rest, depth := s.depth - taken.length
             depth_eq := by simp [s.depth_eq, Words.append_of_takeWords h] }

/-- Exchanges the two entries on top. -/
def swap : StackM Unit := fun s =>
  match h : Words.swap s.values with
  | .error f => .error f s
  | .ok values =>
    .ok () { limit := s.limit, values, depth := s.depth
             depth_eq := by rw [Words.length_swap h, s.depth_eq] }

/-- Copies words, without regard to the limit. -/
def dupUnchecked (instruction : String) (top under : Nat) : StackM Unit := fun s =>
  match ht : Words.takeWords instruction top s.values,
      h : Words.dupWords instruction top under s.values with
  | .ok (copied, _), .ok values =>
    .ok () { limit := s.limit, values, depth := s.depth + copied.length
             depth_eq := by rw [Words.length_dupWords ht h, s.depth_eq] }
  | .error f, _ => .error f s
  | _, .error f => .error f s

/-- Fails if the stack is over its limit. -/
def checkLimit : StackM Unit := fun s =>
  if s.limit < s.depth then .error (.stackOverflow s.limit) s else .ok () s

/-- Copies the `top` words on top below the `under` words that follow them. -/
def dup (instruction : String) (top under : Nat) : StackM Unit := do
  dupUnchecked instruction top under
  checkLimit

def popAs {α : Type} (read : Value → Except Fault α) : StackM α := do
  let v ← pop
  match read v with
  | .ok a => pure a
  | .error f => throw f

/-- Takes an `int`. -/
def popInt (operation : String) : StackM Int32 := popAs (Value.asInt operation)

/-- Takes a `long`. -/
def popLong (operation : String) : StackM Int64 := popAs (Value.asLong operation)

/-- Takes a `float`. -/
def popFloat (operation : String) : StackM Float32 := popAs (Value.asFloat operation)

/-- Takes a `double`. -/
def popDouble (operation : String) : StackM Float := popAs (Value.asDouble operation)

/-- Takes `null` or a reference. -/
def popReference (operation : String) : StackM Value := popAs (Value.asReference operation)

/-- The values between square brackets, bottom first. -/
def text (s : OperandStack) : String := bracketed (s.values.reverse.map Value.text)

end OperandStack

end Jvm
