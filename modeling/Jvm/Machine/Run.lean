import Jvm.Machine.Step

/-!
# Running methods

A method runs with a frame on the call stack and an activation of its own, instruction by instruction.
Instructions call methods and set up classes, which again run methods: `run`, `execute`, `initClass` and
`invoke` call each other, each with one unit of `fuel` less. `World.fuel` is enough for every run that
ends.
-/

namespace Jvm

namespace Activation

/-- The local variables of a method that is entered: the receiver and the arguments in order. -/
def storeArguments : List (Value × FieldType) → Nat → Locals → Except Fault Locals
  | [], _, locals => .ok locals
  | (v, t) :: rest, index, locals => do
    let locals ← locals.store index (← v.asType t "argument")
    storeArguments rest (index + t.slots) locals

/-- The activation of a method that is entered. -/
def enter (stackLimit : Nat) (m : Method) (d : MethodDescriptor) (arguments : List Value)
    (receiver : Option Value) : Except Fault Activation := do
  let required := d.argumentSlots + (if m.isStatic then 0 else 1)
  let declared := (m.body.map (·.maxLocals.toNat)).getD 0
  let locals := Locals.ofCount (max declared required)
  let (locals, first) ←
    if m.isStatic then pure (locals, 0)
    else
      match receiver with
      | none => .error (.typeMismatch "receiver" "reference" "none")
      | some v => do
        let locals ← locals.store 0 (← v.asReference "receiver")
        pure (locals, 1)
  let locals ← storeArguments (arguments.zip d.parameters) first locals
  return { stack := OperandStack.empty stackLimit, locals, returns := d.returns }

end Activation

/-- An action whose frame is taken off the call stack whether it fails or not. -/
def Exec.withFrame {α : Type} (owner name : String) (line : Int32) (act : Exec α) : Exec α := do
  Exec.pushFrame owner name line
  fun w s =>
    match act w s with
    | .ok a s =>
      match Exec.popFrame w s with
      | .ok _ s => .ok a s
      | .error stop s => .error stop s
    | .error stop s => .error stop { s with frames := s.frames.drop 1 }

namespace Provider

/-- Answers a call: a native method answers it or hands it on, and a method of the program is executed,
where a constructor gives its object fields before. -/
def invoke (p : Provider) (execute : ClassFile → Method → List Value → Option Value → Exec Value)
    (handOn : Call → Exec Value) (c : Call) : Exec Value :=
  match p with
  | native catalog =>
    match catalog.find? c.member.owner c.member.signature with
    | none => Exec.fail c.unresolved
    | some m => do
      match ← m.run c with
      | .value v => return v
      | .forward next =>
        match ← handOn next with
        | .void => return .null
        | v => return v
  | comparison => Exec.fail c.unresolved
  | mapped => do
    let d := (← read).program
    match d.target? (← get).heap c with
    | none => Exec.fail c.unresolved
    | some (owner, index) =>
      match owner.methods[index]? with
      | none => Exec.fail c.unresolved
      | some m =>
        if m.isStatic then execute owner m c.arguments none
        else
          let this ← c.this
          if this.isNull then Exec.fail .nullReference
          else
            if c.isConstructor then
              let constructed ← Exec.readHeap (·.isConstructed this)
              if !constructed then Exec.construct this owner.name (.record [])
            execute owner m c.arguments (some this)

end Provider

namespace Chain

/-- Answers a call by the first provider that can, if there is one. -/
def resolveWith (chain : Chain) (execute : ClassFile → Method → List Value → Option Value → Exec Value)
    (handOn : Call → Exec Value) (c : Call) : Exec (Option Value) := do
  let d := (← read).program
  match chain.provider? d (← get).heap c with
  | some p => some <$> p.invoke execute handOn c
  | none => return none

mutual

/-- Executes code from an instruction on until the method returns. -/
def run (chain : Chain) (owner : ClassFile) (m : Method) (code : Array Instruction) :
    Nat → Nat → Activation → Exec Value
  | 0, _, _ => throw .outOfFuel
  | fuel + 1, pc, a =>
    match code[pc]? with
    | none => Exec.fail (.fellOffEnd owner.name m.name)
    | some i => do
      Exec.tick
      let hooks : Hooks := ⟨invokeWithin chain fuel, initClassWithin chain fuel⟩
      let (next, a) ← (Step.execute chain hooks i).run a
      match next with
      | .advance => run chain owner m code fuel (pc + 1) a
      | .jump target =>
        if target < code.size then run chain owner m code fuel target a
        else Exec.fail (.invalidBranchTarget target)
      | .finish v => return v

def executeWithin (chain : Chain) :
    Nat → ClassFile → Method → List Value → Option Value → Exec Value
  | 0, _, _, _, _ => throw .outOfFuel
  | fuel + 1, owner, m, arguments, receiver =>
    match m.body with
    | none => Exec.fail (.missingBody owner.name m.name m.descriptor)
    | some body => do
      let d ← Step.methodType m.descriptor
      if arguments.length ≠ d.parameters.length then
        Exec.fail (.argumentCount d.parameters.length arguments.length)
      else
        Exec.withFrame owner.name m.name (Int32.ofNat owner.poolSize.toNat) do
          let a ← Activation.enter (← read).limits.stackDepth m d arguments receiver
          run chain owner m body.instructions fuel 0 a

/-- Sets up a class of the program unless that has begun: first its superclass, then by its own code. -/
def initClassWithin (chain : Chain) : Nat → String → Exec Unit
  | 0, _ => throw .outOfFuel
  | fuel + 1, name => do
    match (← read).program.get? name with
    | none => return ()
    | some c =>
      -- noted before its code runs, which may use the class itself
      if ← Exec.markStarted name then
        match c.superName with
        | some above => initClassWithin chain fuel above
        | none => pure ()
        match c.setup? with
        | some m => do
          let _ ← executeWithin chain fuel c m [] none
          return ()
        | none => return ()
      else return ()

def invokeWithin (chain : Chain) : Nat → Call → Exec Value
  | 0, _ => throw .outOfFuel
  | fuel + 1, c => do
    match ← chain.resolveWith (executeWithin chain fuel) (invokeWithin chain fuel) c with
    | some v => return v
    | none => Exec.fail c.unresolved

end

def execute (chain : Chain) (owner : ClassFile) (m : Method) (arguments : List Value)
    (receiver : Option Value) : Exec Value := do
  executeWithin chain (← read).fuel owner m arguments receiver

def initClass (chain : Chain) (name : String) : Exec Unit := do
  initClassWithin chain (← read).fuel name

def invoke (chain : Chain) (c : Call) : Exec Value := do invokeWithin chain (← read).fuel c

/-- Answers a call if some provider can. -/
def resolve (chain : Chain) (c : Call) : Exec (Option Value) := do
  chain.resolveWith chain.execute chain.invoke c

end Chain

end Jvm
