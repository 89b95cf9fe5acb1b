import Jvm.Machine.Arithmetic
import Jvm.Machine.Provider
import Jvm.Locals

/-!
# One instruction

What each instruction does to the running method and the machine. Calls and the set-up of classes are
actions given from outside (`Hooks`), so that this part does not recurse.
-/

namespace Jvm

/-- The stack and local variables of a running method, and the type that it returns. -/
structure Activation where
  stack : OperandStack
  locals : Locals
  returns : FieldType

/-- Where control goes after an instruction. -/
inductive Next where
  | advance
  | jump (target : Nat)
  | finish (v : Value)
deriving DecidableEq

/-- Actions that run other methods. -/
structure Hooks where
  invoke : Call → Exec Value
  /-- Sets up a class unless that has begun. -/
  initClass : String → Exec Unit

/-- An action of a running method. -/
abbrev Step := StateT Activation Exec

namespace Step

def onStack {α : Type} (m : StackM α) : Step α := do
  let a ← get
  match m a.stack with
  | .ok x stack => do
    set { a with stack }
    return x
  | .error f _ => Exec.fail (α := α) f

instance : MonadLift StackM Step := ⟨onStack⟩

/-- Continues with a result or ends with its fault. -/
def ofExcept {α : Type} (r : Except Fault α) : Step α := Exec.ofExcept r

instance : MonadLift (Except Fault) Step := ⟨ofExcept⟩

def push (v : Value) : Step Unit := OperandStack.push v

/-- The operand is not the one that the opcode needs. -/
def badOperand {α : Type} (i : Instruction) (expected : String) : Step α :=
  Exec.fail (α := α) (.invalidOperand i.opcode.mnemonic expected)

def member (i : Instruction) : Step MemberRef :=
  match i.member? with
  | some m => return m
  | none => badOperand i "member reference"

def className (i : Instruction) : Step String :=
  match i.operand with
  | .classRef name => return name
  | _ => badOperand i "class name"

def slot (i : Instruction) : Step Nat :=
  match i.operand with
  | .slot index => return index.toNat
  | _ => badOperand i "local index"

def jumpTarget (i : Instruction) : Step Nat :=
  match i.operand with
  | .jump target => return target
  | _ => badOperand i "jump target"

def branchIf (taken : Bool) (i : Instruction) : Step Next :=
  if taken then return .jump (← jumpTarget i) else return .advance

def fieldType (descriptor : String) : Except Fault FieldType :=
  match FieldType.parse descriptor with
  | .ok t => .ok t
  | .error _ => .error (.invalidDescriptor descriptor)

def operandType (name : String) : Except Fault FieldType :=
  match FieldType.ofClassOperand name with
  | .ok t => .ok t
  | .error _ => .error (.invalidDescriptor name)

def methodType (descriptor : String) : Except Fault MethodDescriptor :=
  match MethodDescriptor.parse descriptor with
  | .ok d => .ok d
  | .error _ => .error (.invalidDescriptor descriptor)

def arrayLength (n : Int32) : Except Fault Nat :=
  if n < 0 then .error (.negativeArraySize n.toInt) else .ok n.toInt.toNat

/-- The value if it is of the type of a load or store. -/
def checkSlot (name : String) (t : SlotType) (v : Value) : Except Fault Value :=
  match t with
  | .int => (v.asInt name).map .int
  | .long => (v.asLong name).map .long
  | .float => (v.asFloat name).map .float
  | .double => (v.asDouble name).map .double
  | .ref => v.asReference name

/-- The array holds elements of the type. -/
def holds (t : ElemType) (a : ArrayObject) : Bool :=
  match t, a with
  | .int, .int _ | .long, .long _ | .float, .float _ | .double, .double _ | .byte, .byte _
  | .byte, .boolean _ | .char, .char _ | .short, .short _ | .ref, .reference .. => true
  | _, _ => false

def elemName : ElemType → String
  | .int => "int"
  | .long => "long"
  | .float => "float"
  | .double => "double"
  | .ref => "reference"
  | .byte => "byte"
  | .char => "char"
  | .short => "short"

def checkElement (t : ElemType) (a : ArrayObject) : Except Fault Unit :=
  if holds t a then .ok () else .error (.arrayElementType (elemName t) a.kind)

/-- The value of a constant; a text is interned, and a class gets a new object. -/
def constantValue : Constant → Exec Value
  | .int v => return .int v
  | .long v => return .long v
  | .float v => return .float v
  | .double v => return .double v
  | .string text => Exec.intern text
  | .classRef name => Exec.allocate (.classObject name)

/-- Runs an action a number of times and keeps the results. -/
def replicateExec {α : Type} (act : Exec α) : Nat → Exec (List α)
  | 0 => return []
  | n + 1 => do
    let x ← act
    return x :: (← replicateExec act n)

/-- Makes an array of arrays: one length for each dimension, the outermost first. -/
def newArrays : FieldType → List Nat → Exec Value
  | .array component, [length] => Exec.allocate (.array (.ofComponent component length))
  | .array component, length :: rest@(_ :: _) => do
    let elements ← replicateExec (newArrays component rest) length
    Exec.allocate (.array (.reference component.descriptor elements.toArray))
  | t, _ => Exec.fail (.invalidDescriptor t.descriptor)

/-- The class that holds a static field, and the field: the named class or the nearest above it, where
`fuel` bounds the classes looked at. In a circle of classes without the field the search has no end: it
goes on for as long as there is fuel. -/
def findStatic (d : ClassDictionary) (m : MemberRef) : Nat → String → Exec (String × Field)
  | 0, _ => throw .outOfFuel
  | fuel + 1, owner =>
    match d.get? owner with
    | none => Exec.fail (.unresolvedField m.owner m.name)
    | some c =>
      match (c.field? m.name).filter (·.isStatic), c.superName with
      | some f, _ => return (c.name, f)
      | none, some above => findStatic d m fuel above
      | none, none => Exec.fail (.unresolvedField m.owner m.name)

/-- The static field of a reference. -/
def resolveStatic (m : MemberRef) : Exec (String × Field) := do
  let w ← read
  findStatic w.program m w.fuel m.owner

/-- The value of a static field: what was stored last, else its constant, else the initial value. -/
def getStatic (hooks : Hooks) (m : MemberRef) : Exec Value := do
  hooks.initClass m.owner
  let (owner, f) ← resolveStatic m
  match (← get).static? owner f.name with
  | some v => return v
  | none =>
    match f.constant with
    | some c => constantValue c
    | none => return Value.initial (← fieldType f.descriptor)

def putStatic (hooks : Hooks) (m : MemberRef) (v : Value) : Exec Unit := do
  hooks.initClass m.owner
  let (owner, f) ← resolveStatic m
  modify (·.putStatic owner f.name v)

/-- Calls a method: its arguments and, unless it is static, its receiver are on the stack. -/
def invoke (hooks : Hooks) (kind : InvokeKind) (i : Instruction) : Step Unit := do
  let m ← member i
  let d ← methodType m.descriptor
  let arguments ← OperandStack.popN d.parameters.length
  let result ←
    if kind = .static then do
      hooks.initClass m.owner
      hooks.invoke (.onClass m arguments)
    else do
      let receiver ← OperandStack.popReference i.opcode.mnemonic
      if receiver.isNull then Exec.fail (α := Value) .nullReference
      else hooks.invoke (.onObject kind m receiver arguments)
  if d.returns.isVoid then return () else push (← result.asType d.returns "invoke")

/-- The target of a switch over a range of keys. -/
def tableTarget (low high : Int32) (fallback : Nat) (targets : List Nat) (key : Int32) : Nat :=
  if low ≤ key ∧ key ≤ high then targets.getD (key.toInt - low.toInt).toNat fallback else fallback

/-- The target of a switch over listed keys. -/
def lookupTarget (fallback : Nat) (pairs : List (Int32 × Nat)) (key : Int32) : Nat :=
  ((pairs.find? (·.1 == key)).map (·.2)).getD fallback

/-- Executes an instruction that goes on to the next one. -/
def executeSimple (chain : Chain) (hooks : Hooks) (i : Instruction) : Step Unit := do
  let name := i.opcode.mnemonic
  match i.opcode with
  | .nop => return ()
  | .aconstNull => push .null
  | .iconst n => push (.int (Int32.ofInt (n.val - 1)))
  | .lconst n => push (.long (Int64.ofNat n))
  | .fconst n => push (.float (Float32.ofNat n))
  | .dconst n => push (.double (Float.ofNat n))
  | .bipush | .sipush =>
    match i.operand with
    | .int v => push (.int v)
    | _ => badOperand i "immediate"
  | .ldc =>
    match i.constant? with
    | some c => push (← constantValue c)
    | none => badOperand i "constant"
  | .load t =>
    let v ← (← get).locals.load (← slot i)
    push (← checkSlot name t v)
  | .store t =>
    let v ← checkSlot name t (← OperandStack.pop)
    let locals ← (← get).locals.store (← slot i) v
    modify ({ · with locals })
  | .iinc =>
    match i.operand with
    | .increment index delta =>
      let old ← (← (← get).locals.load index.toNat).asInt name
      let locals ← (← get).locals.store index.toNat (.int (old + delta.toInt32))
      modify ({ · with locals })
    | _ => badOperand i "increment"
  | .arrayLoad t =>
    let index ← OperandStack.popInt name
    let a ← Exec.narrow View.array (← OperandStack.popReference name)
    checkElement t a
    push (← a.load index)
  | .arrayStore t =>
    let v ← OperandStack.pop
    let index ← OperandStack.popInt name
    let target ← OperandStack.popReference name
    let a ← Exec.narrow View.array target
    checkElement t a
    let i ← a.storePosition index v
    Exec.modify View.array target (·.put i v)
  | .arrayLength =>
    let a ← Exec.narrow View.array (← OperandStack.popReference name)
    push (.ofLength a.size)
  | .newArray =>
    match i.operand with
    | .newArray t =>
      let length ← arrayLength (← OperandStack.popInt name)
      push (← Exec.allocate (.array (.zeros t length)))
    | _ => badOperand i "array type"
  | .anewArray =>
    let component ← operandType (← className i)
    let length ← arrayLength (← OperandStack.popInt name)
    push (← Exec.allocate (.array (.ofComponent component length)))
  | .multiNewArray =>
    match i.operand with
    | .multiArray descriptor dimensions =>
      let t ← fieldType descriptor
      let counts ← OperandStack.popN dimensions.toNat
      let lengths ← counts.mapM fun v => do arrayLength (← v.asInt name)
      push (← newArrays t lengths)
    | _ => badOperand i "array descriptor"
  | .pop => OperandStack.popWords name 1
  | .pop2 => OperandStack.popWords name 2
  | .dup wide under => OperandStack.dup name (if wide then 2 else 1) under
  | .swap => OperandStack.swap
  | .arith op t => OperandStack.arith name op t
  | .neg t => OperandStack.negate name t
  | .shift op size => OperandStack.shift name op size
  | .bits op size => OperandStack.bits name op size
  | .convert c => OperandStack.convert name c
  | .lcmp => OperandStack.compareLong name
  | .fcmp nanGreater => OperandStack.compareFloat name nanGreater
  | .dcmp nanGreater => OperandStack.compareDouble name nanGreater
  | .getStatic => push (← getStatic hooks (← member i))
  | .putStatic =>
    let m ← member i
    let v ← OperandStack.pop
    let v ← v.asType (← fieldType m.descriptor) name
    putStatic hooks m v
  | .getField =>
    let m ← member i
    let t ← fieldType m.descriptor
    let fields ← Exec.narrow View.record (← OperandStack.popReference name)
    push ((fields.get? m.name).getD (Value.initial t))
  | .putField =>
    let m ← member i
    let v ← OperandStack.pop
    let v ← v.asType (← fieldType m.descriptor) name
    Exec.modify View.record (← OperandStack.popReference name) (·.put m.name v)
  | .invoke kind => invoke hooks kind i
  | .new =>
    let c ← className i
    hooks.initClass c
    push (← Exec.placeholder c)
  | .checkCast =>
    let target ← className i
    let v ← (← OperandStack.peek).asReference name
    if v.isNull then return ()
    else
      let d := (← read).program
      if ← Exec.readHeap fun h => chain.instanceOf d h v target then return ()
      else Exec.fail (.classCast (← Exec.className v) target)
  | .instanceOf =>
    let target ← className i
    let v ← OperandStack.popReference name
    let d := (← read).program
    push (.ofBool (← Exec.readHeap fun h => chain.instanceOf d h v target))
  | .monitor _ =>
    if (← OperandStack.popReference name).isNull then Exec.fail .nullReference else return ()
  | .athrow =>
    let v ← OperandStack.popReference name
    Exec.fail (.exceptionThrown (← Exec.className v))
  | opcode => Exec.fail (.unsupportedOpcode opcode)

def execute (chain : Chain) (hooks : Hooks) (i : Instruction) : Step Next := do
  let name := i.opcode.mnemonic
  match i.opcode with
  | .ifInt c => branchIf (← OperandStack.testZero name c) i
  | .ifIntCmp c => branchIf (← OperandStack.testInts name c) i
  | .ifRefCmp equal =>
    let b ← OperandStack.popReference name
    let a ← OperandStack.popReference name
    branchIf ((← Exec.readHeap fun h => chain.compare h a b) == equal) i
  | .ifNull null =>
    let v ← OperandStack.popReference name
    branchIf (v.isNull == null) i
  | .goto => return .jump (← jumpTarget i)
  | .tableSwitch =>
    match i.operand with
    | .table low high fallback targets =>
      return .jump (tableTarget low high fallback targets (← OperandStack.popInt name))
    | _ => badOperand i "table switch"
  | .lookupSwitch =>
    match i.operand with
    | .lookup fallback pairs =>
      return .jump (lookupTarget fallback pairs (← OperandStack.popInt name))
    | _ => badOperand i "lookup switch"
  | .valueReturn _ =>
    let v ← OperandStack.pop
    return .finish (← v.asType (← get).returns name)
  | .voidReturn =>
    let t := (← get).returns
    if t.isVoid then return .finish .void
    else Exec.fail (.typeMismatch name "value return" "void")
  | _ => do
    executeSimple chain hooks i
    return .advance

end Step

end Jvm
