import Jvm.Proofs.Machine.Changes
import Jvm.Proofs.Machine.Places
import Jvm.Proofs.Machine.Simulation

/-!
# What happens in the life of a machine

The tasks that a machine is given, one after the other, leave a history: what happened in which order, and
the state at each moment (`Chain.session`). It is read off the interpreter, which has no such record: the
results and states are those of the run itself, and where a run calls another one, the history of that stands
in between (`Chain.history`).

An instruction is told three times at most: when it begins, when its class is set up and it is about to take
effect, and when it has been executed. How it ends is one of four ways (`Ends`).
-/

namespace Jvm

open Exec (Any)

/-- The result of an action or how it ends early, and the state that it leaves. -/
def Exec.outcome {α : Type} (x : Exec α) (w : World) (s : State) : Except Stop α × State :=
  match x w s with
  | .ok a t => (.ok a, t)
  | .error e t => (.error e, t)

/-- The state in which an action ends, whether it fails or not. -/
def Exec.after {α : Type} (x : Exec α) (w : World) (s : State) : State := (x.outcome w s).2

/-- What happens. -/
inductive Event where
  /-- A task from outside begins. -/
  | opens
  /-- The task has ended, one way or another. -/
  | closes
  /-- The set-up of a class is called for. -/
  | asks (name : String)
  /-- The code by which the class is set up begins. -/
  | starts (name : String)
  /-- That code has come to its end. -/
  | completes (name : String)
  /-- The call for the set-up of the class returns. -/
  | settles (name : String)
  /-- That call returns an error, or is cut off. -/
  | fails (name : String)
  /-- An instruction begins. -/
  | begins (i : Instruction) (a : Activation)
  /-- The class of an instruction is set up, and the instruction is about to take effect. -/
  | uses (name : String)
  /-- An instruction has been executed. -/
  | executed (i : Instruction) (a : Activation) (r : Except Stop (Next × Activation))

namespace Event

/-- How the call for the set-up of a class returns. -/
def ofReturn (name : String) : Except Stop Unit → Event
  | .ok _ => settles name
  | .error _ => fails name

/-- No instruction is about to take effect or has done so. -/
def isPlain : Event → Bool
  | uses _ | executed .. => false
  | _ => true

end Event

/-- An event, and the state right after it. -/
structure Moment where
  event : Event
  state : State

/-- What a machine may be asked for. -/
inductive Task where
  /-- To go on with a method from an instruction. -/
  | run (owner : ClassFile) (m : Method) (code : Array Instruction) (pc : Nat) (a : Activation)
  | execute (owner : ClassFile) (m : Method) (arguments : List Value) (receiver : Option Value)
  | initClass (name : String)
  | invoke (c : Call)
  | intern (text : Units)

/-- The state in which a task ends that is done with some fuel. -/
def Task.after (chain : Chain) (w : World) (n : Nat) : Task → State → State
  | run owner m code pc a => (chain.run owner m code n pc a).after w
  | execute owner m arguments receiver => (chain.executeWithin n owner m arguments receiver).after w
  | initClass name => (chain.initClassWithin n name).after w
  | invoke c => (chain.invokeWithin n c).after w
  | intern text => (Exec.intern text).after w

namespace Chain

/-- Comes to where a method begins: to its code, and the activation with the arguments. -/
def enter (owner : ClassFile) (m : Method) (arguments : List Value) (receiver : Option Value) :
    Exec (Array Instruction × Activation) :=
  match m.body with
  | none => Exec.fail (.missingBody owner.name m.name m.descriptor)
  | some b => do
    let d ← Step.methodType m.descriptor
    if arguments.length ≠ d.parameters.length then
      Exec.fail (.argumentCount d.parameters.length arguments.length)
    else
      Exec.pushFrame owner.name m.name (Int32.ofNat owner.poolSize.toNat)
      let a ← Activation.enter (← read).limits.stackDepth m d arguments receiver
      return (b.instructions, a)

/-! ### The history of a task

`sub` is the history of what is done with one unit of fuel less. -/

section

variable (chain : Chain) (w : World) (n : Nat) (sub : Task → State → List Moment)

/-- The set-up of the class that an instruction asks for. -/
def setUpHistory (intent : Intent) (s : State) : List Moment :=
  match intent.owner? with
  | some name => sub (.initClass name) s
  | none => []

/-- From where the class is set up to where the call has been answered. -/
def useHistory (intent : Intent) (s : State) : List Moment :=
  (intent.owner?.toList.map fun name => ⟨.uses name, s⟩) ++
    match intent.call? with
    | some c => sub (.invoke c) s
    | none => []

/-- An instruction, told again when it has been executed. -/
def instructionHistory (i : Instruction) (a : Activation) (s : State) : List Moment :=
  let x := Step.execute chain (chain.hooks n) i a
  ⟨.begins i a, s⟩ ::
    (match Step.intent i a.stack with
      | .error _ _ => []
      | .ok intent _ => setUpHistory sub intent s ++
        match intent.setUp (chain.hooks n) w s with
        | .ok _ t => useHistory sub intent t
        | .error _ _ => []) ++
    [⟨.executed i a (x.outcome w s).1, x.after w s⟩]

/-- An instruction and what follows it. -/
def runHistory (owner : ClassFile) (m : Method) (code : Array Instruction) (i : Instruction) (pc : Nat)
    (a : Activation) (s : State) : List Moment :=
  instructionHistory chain w n sub i a s ++
    match Step.execute chain (chain.hooks n) i a w s with
    | .ok (.advance, a') t => sub (.run owner m code (pc + 1) a') t
    | .ok (.jump target, a') t => if target < code.size then sub (.run owner m code target a') t else []
    | _ => []

/-- The class above a class is set up. -/
def aboveHistory (c : ClassFile) (s : State) : List Moment :=
  match c.superName with
  | some above => sub (.initClass above) s
  | none => []

/-- A class is set up by its own code. -/
def selfHistory (c : ClassFile) (name : String) (s : State) : List Moment :=
  match c.setup? with
  | none => []
  | some m => ⟨.starts name, s⟩ :: sub (.execute c m [] none) s ++
    match chain.executeWithin n c m [] none w s with
    | .ok _ t => [⟨.completes name, t⟩]
    | .error _ _ => []

/-- A class is noted, then what is above it is set up, then the class itself. -/
def initHistory (name : String) (s : State) : List Moment :=
  match w.program.get? name with
  | none => []
  | some c =>
    if name ∈ s.started then []
    else
      let noted := { s with started := name :: s.started }
      aboveHistory sub c noted ++
      match chain.initAbove n c w noted with
      | .ok _ t => selfHistory chain w n sub c name t
      | .error _ _ => []

def parts : Task → State → List Moment
  | .run owner m code pc a, s =>
    match code[pc]? with
    | none => []
    | some i =>
      match Exec.tick w s with
      | .ok _ t => runHistory chain w n sub owner m code i pc a t
      | .error _ _ => []
  | .execute owner m arguments receiver, s =>
    match enter owner m arguments receiver w s with
    | .ok (code, a) t => sub (.run owner m code 0 a) t
    | .error _ _ => []
  | .initClass name, s => initHistory chain w n sub name s
  | .invoke c, s =>
    match chain.answer c w s with
    | .ok (.execute owner m arguments receiver) t => sub (.execute owner m arguments receiver) t
    | .ok (.handOn next) t => sub (.invoke next) t
    | _ => []
  | .intern _, _ => []

end

variable (chain : Chain) (w : World)

/-- The call and the return around the set-up of a class. -/
def enclose (n : Nat) (t : Task) (s : State) (inner : List Moment) : List Moment :=
  match t with
  | .initClass name =>
    let x := chain.initClassWithin n name
    ⟨.asks name, s⟩ :: inner ++ [⟨.ofReturn name (x.outcome w s).1, x.after w s⟩]
  | _ => inner

/-- What happens while a task is done with some fuel. -/
def history : Nat → Task → State → List Moment
  | 0, t, s => enclose chain w 0 t s []
  | n + 1, t, s => enclose chain w (n + 1) t s (parts chain w n (history n) t s)

/-- What happens while one task is done after the other, each with fuel of its own. -/
def session : List (Nat × Task) → State → List Moment
  | [], _ => []
  | (n, t) :: rest, s =>
    ⟨.opens, s⟩ :: history chain w n t s ++ ⟨.closes, t.after chain w n s⟩ ::
      session rest (t.after chain w n s)

end Chain

/-! ### How an instruction ends -/

/-- What is told last before an instruction takes effect, if it makes no call. -/
def Intent.herald (n : Intent) (i : Instruction) (a : Activation) : Event :=
  match n.owner? with
  | some name => .uses name
  | none => .begins i a

/-- If the instruction has a class, this has been set up, and since then nothing has happened but the call that
the instruction makes; `x` is what was answered. -/
def Intent.Used (chain : Chain) (w : World) (n : Intent) (L : List Moment) (x : Except Stop Value) (t : State) : Prop :=
  ∀ name, n.owner? = some name → ∃ (L' : List Moment) (m : Nat) (s : State),
    L = L' ++ ⟨.uses name, s⟩ :: (match n.call? with
      | some c => chain.history w m (.invoke c) s
      | none => []) ∧ (n.ask (chain.hooks m)).outcome w s = (x, t)

/-- How an instruction ends that has been told so far, and that leads from one state to another. -/
inductive Ends (chain : Chain) (w : World) (i : Instruction) (a : Activation) :
    List Moment → State → Except Stop (Next × Activation) → State → Prop
  /-- It does not find its operands. -/
  | operands {L : List Moment} {s : State} {f : Fault} {stack : OperandStack}
      (hn : Step.intent i a.stack = .error f stack) :
      Ends chain w i a (L ++ [⟨.begins i a, s⟩]) s (.error (.error (.emulation f))) s
  /-- Its class could not be set up. -/
  | setUp {L : List Moment} {s : State} {n : Intent} {stack : OperandStack} {name : String} {e : Stop}
      (hn : Step.intent i a.stack = .ok n stack) (hname : n.owner? = some name) :
      Ends chain w i a (L ++ [⟨.fails name, s⟩]) s (.error e) s
  /-- The call that it makes has failed. -/
  | call {L : List Moment} {s : State} {n : Intent} {stack : OperandStack} {c : Call} {e : Stop}
      (hn : Step.intent i a.stack = .ok n stack) (hc : n.call? = some c)
      (hused : n.Used chain w L (.error e) s) :
      Ends chain w i a L s (.error e) s
  /-- It takes effect. -/
  | effect {L : List Moment} {s t : State} {n : Intent} {stack : OperandStack} {v : Value}
      {r : Except Stop (Next × Activation)} (hn : Step.intent i a.stack = .ok n stack)
      (hused : n.Used chain w L (.ok v) s) (hlast : n.call? = none → ∃ L', L = L' ++ [⟨n.herald i a, s⟩])
      (hx : (Step.effect chain i v n { a with stack }).outcome w s = (r, t)) : Ends chain w i a L s r t

namespace Exec

variable {α : Type} {x : Exec α} {w : World} {s t : State}

theorem outcome_of_ok {a : α} (h : x w s = .ok a t) : x.outcome w s = (.ok a, t) := by rw [outcome, h]

theorem outcome_of_error {e : Stop} (h : x w s = .error e t) : x.outcome w s = (.error e, t) := by rw [outcome, h]

theorem after_of_ok {a : α} (h : x w s = .ok a t) : x.after w s = t := by rw [after, outcome_of_ok h]

theorem after_of_error {e : Stop} (h : x w s = .error e t) : x.after w s = t := by rw [after, outcome_of_error h]

theorem ok_of_outcome {a : α} (h : x.outcome w s = (.ok a, t)) : x w s = .ok a t := by
  unfold outcome at h
  split at h <;> cases h
  assumption

theorem error_of_outcome {e : Stop} (h : x.outcome w s = (.error e, t)) : x w s = .error e t := by
  unfold outcome at h
  split at h <;> cases h
  assumption

end Exec

namespace Ends

variable {chain : Chain} {w : World} {i : Instruction} {a : Activation} {L : List Moment} {s t : State}
  {r : Except Stop (Next × Activation)}

/-- However an instruction ends, it has altered the heap; fields are written to by two instructions only. -/
theorem changes {writes : Prop} (hi : i.Writes → writes) (h : Ends chain w i a L s r t) : s.Changes writes t := by
  cases h with
  | effect hn _ _ hx =>
    cases r with
    | ok p => exact ((Step.changes_effect hi hn _).of_ok (Exec.ok_of_outcome hx)).2
    | error e => exact (Step.changes_effect hi hn _).of_error (Exec.error_of_outcome hx)
  | _ => exact .refl s

/-- An instruction without a class and a call takes effect where it begins. -/
theorem of_plain (hi : Step.intent i a.stack = .ok .plain a.stack) (h : Ends chain w i a L s r t) :
    (∃ L', L = L' ++ [⟨.begins i a, s⟩]) ∧ (Step.execute chain .idle i a).outcome w s = (r, t) := by
  cases h with
  | operands hn => cases hi.symm.trans hn
  | setUp hn hname => cases hi.symm.trans hn; cases hname
  | call hn hc => cases hi.symm.trans hn; cases hc
  | effect hn _ hlast hx => cases hi.symm.trans hn; exact ⟨hlast rfl, hx⟩

/-- An instruction that fails has written to no field. -/
theorem changes_of_error {e : Stop} (h : Ends chain w i a L s (.error e) t) : s.Changes False t := by
  cases h with
  | effect hn _ _ hx => exact Step.changes_effect_error hn (Exec.error_of_outcome hx)
  | _ => exact .refl s

end Ends

end Jvm
