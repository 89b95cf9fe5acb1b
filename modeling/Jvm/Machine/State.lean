import Jvm.ClassFile
import Jvm.Error
import Jvm.Machine.Heap

/-!
# The state of a machine

What a run may read but not change (`World`), what it changes (`State`), and how it ends early
(`Stop`). `Exec` is an action of the machine: the first failure ends it and keeps the changes made so
far.
-/

namespace Jvm

/-- The most that a run may use. -/
structure Limits where
  /-- Instructions; zero for as many as it takes. -/
  instructions : UInt64
  callDepth : Nat
  stackDepth : Nat
  heapObjects : Nat
deriving DecidableEq, Repr

namespace Limits

/-- The limits of a run of its own. -/
def standard : Limits := ⟨10000000, 512, 65535, 100000⟩

/-- The limits of the run of a decryptor. -/
def decryption : Limits := ⟨2000000, 128, 4096, 50000⟩

def instructionBound (l : Limits) : Nat :=
  if l.instructions = 0 then 0x10000000000000000 else l.instructions.toNat

end Limits

/-- What a clock shows each time it is read: milliseconds since the start of 1970, negative before. -/
abbrev Clock := Nat → Int

/-- A clock that has stopped. -/
def Clock.still (time : Int) : Clock := fun _ => time

/-- What a run may read. -/
structure World where
  program : ClassDictionary
  limits : Limits
  file : Option String
  files : List (String × List UInt8)
  clock : Clock

/-- Units for every run that ends: each instruction and each entry of a method may be followed by calls
that hand on other calls, for which there must be objects, and by the set-up of classes. -/
def World.fuel (w : World) : Nat :=
  (w.limits.instructionBound + w.limits.callDepth + 2) * (w.limits.heapObjects + w.program.size + 8)

/-- What a run changes. -/
structure State where
  /-- The methods that are running, the newest first. -/
  frames : List CallFrame
  heap : Heap
  /-- Values of static fields by class and name, a newer one before an older one. -/
  statics : List ((String × String) × Value)
  /-- Classes whose set-up has begun. -/
  started : List String
  /-- Executed instructions. -/
  steps : Nat
  /-- How often the clock was read. -/
  readings : Nat
deriving DecidableEq

namespace State

/-- The state before a run. -/
def start (limits : Limits) : State := ⟨[], Heap.empty limits.heapObjects, [], [], 0, 0⟩

def static? (s : State) (owner name : String) : Option Value :=
  (s.statics.find? (·.1 == (owner, name))).map (·.2)

def putStatic (s : State) (owner name : String) (v : Value) : State :=
  { s with statics := ((owner, name), v) :: s.statics.filter (·.1 != (owner, name)) }

end State

/-- How an action ends early. -/
inductive Stop where
  | error (e : Error)
  /-- The evaluation does not end or was cut off. -/
  | outOfFuel
deriving DecidableEq

namespace Stop

def text : Stop → String
  | error e => e.text
  | outOfFuel => "Evaluation was cut off"

/-- The kind of the fault that is the reason, if one is. -/
def faultKind : Stop → Option FaultKind
  | error e => e.faultKind
  | outOfFuel => none

end Stop

/-- An action of the machine. -/
abbrev Exec := ReaderT World (EStateM Stop State)

namespace Exec

def fail {α : Type} (f : Fault) : Exec α := throw (.error (.emulation f))

/-- Continues with a result or ends with its fault. -/
def ofExcept {α : Type} : Except Fault α → Exec α
  | .ok a => pure a
  | .error f => fail f

instance : MonadLift (Except Fault) Exec := ⟨ofExcept⟩

/-- Ends with an error that is no fault. -/
def failWith {α : Type} (e : Error) : Exec α := throw (.error e)

def readHeap {α : Type} (f : Heap → Except Fault α) : Exec α := do f (← get).heap

/-- Changes the heap, with a result. -/
def editHeap {α : Type} (f : Heap → α × Heap) : Exec α :=
  modifyGet fun s =>
    let (a, heap) := f s.heap
    (a, { s with heap })

def narrow {α : Type} (view : View α) (v : Value) : Exec α := readHeap (·.narrow view v)

def className (v : Value) : Exec String := readHeap (·.className v)

/-- Changes the contents of an object of one kind. -/
def modify {α : Type} (view : View α) (v : Value) (f : α → α) : Exec Unit := do
  let _ ← narrow view v
  let id ← Heap.idOf v
  editHeap fun h => ((), h.edit view id f)

def make (className : String) (p : Option Payload) : Exec Value := do
  readHeap (·.checkRoom)
  editHeap (·.push className p)

def allocateAs (className : String) (p : Payload) : Exec Value := make className (some p)

/-- Makes an object of the class that its contents suggest. -/
def allocate (p : Payload) : Exec Value := allocateAs p.className p

/-- Makes an object that is still to be constructed. -/
def placeholder (className : String) : Exec Value := make className none

def construct (v : Value) (expected : String) (p : Payload) : Exec Unit := do
  let id ← readHeap (·.unconstructed v expected)
  editHeap fun h => ((), h.setPayload id p)

def intern (text : Units) : Exec Value := do
  match (← get).heap.interned? text with
  | some id => return .ref id
  | none =>
    readHeap (·.checkRoom)
    editHeap (·.pushInterned text)

def newString (text : Units) : Exec Value := allocate (.string text)

def pushFrame (owner name : String) (line : Int32) : Exec Unit := do
  let s ← get
  let limit := (← read).limits.callDepth
  if limit ≤ s.frames.length then fail (.callDepth (s.frames.length + 1) limit)
  else set { s with frames := CallFrame.ofMethod owner name line :: s.frames }

def popFrame : Exec CallFrame := do
  let s ← get
  match s.frames with
  | f :: frames => do
    set { s with frames }
    return f
  | [] => fail .callStackUnderflow

def tick : Exec Unit := do
  let s ← get
  let limit := (← read).limits.instructions
  if limit ≠ 0 ∧ limit.toNat ≤ s.steps then fail (.instructionLimit s.steps limit.toNat)
  else set { s with steps := s.steps + 1 }

/-- Reads the clock, which may show another time the next time. -/
def readClock : Exec Int := do
  let s ← get
  set { s with readings := s.readings + 1 }
  return (← read).clock s.readings

/-- Notes that the set-up of a class begins; false if it had begun before. -/
def markStarted (className : String) : Exec Bool := do
  let s ← get
  if s.started.contains className then return false
  else
    set { s with started := className :: s.started }
    return true

end Exec

end Jvm
