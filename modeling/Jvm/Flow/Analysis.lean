import Jvm.Flow.Transfer
import Jvm.MethodBody

/-!
# Dataflow through a body

`analyze` finds what every reachable instruction takes and leaves, over all paths from the first
instruction. It keeps the stack of frames known at each instruction and visits the instruction with
the lowest index whose stack has changed until nothing changes any more.
-/

namespace Jvm

/-- The entries of a body's instructions; unreachable ones have none. -/
structure Analysis where
  entries : Array (Option FlowEntry)
deriving Inhabited

namespace Analysis

def entry? (a : Analysis) (index : Nat) : Option FlowEntry := (a.entries[index]?).join

/-- Some path reaches the instruction. -/
def isReachable (a : Analysis) (index : Nat) : Bool := (a.entry? index).isSome

/-- How many instructions take a value that `source` may have pushed. -/
def consumers (a : Analysis) (source : Nat) : Nat :=
  ((a.entries.toList.filterMap id).filter fun e => e.consumed.any (·.mayComeFrom source)).length

/-- The arguments of the call that left the instruction's result. -/
def callArguments? (a : Analysis) (index : Nat) : Option (List Frame) := do
  let e ← a.entry? index
  let f ← e.produced
  f.arguments?

end Analysis

namespace Flow

/-- The search for a fixed point: the stack known at each instruction, the entries so far, and the
instructions to visit in increasing order. -/
structure Progress where
  incoming : Array (Option (List Frame))
  entries : Array (Option FlowEntry)
  pending : List Nat

/-- Before the first of `n` instructions, where nothing is on the stack. -/
def Progress.start (n : Nat) : Progress :=
  { incoming := (Array.replicate n none).setIfInBounds 0 (some [])
    entries := Array.replicate n none
    pending := [0] }

/-- Where control goes from the instruction at `index`, and the stack it takes there. What `jsr`
pushes is there in the subroutine only. -/
def successors (index : Nat) (i : Instruction) (stack : List Frame) : List (Nat × List Frame) :=
  i.targets.map (fun t => (t, stack))
    ++ (if i.fallsThrough then
          [(index + 1, if i.opcode = .jsr then stack.drop 1 else stack)]
        else [])

/-- What is known at `target` where two stacks meet. -/
def meetStacks (owner : String) (target : Nat) (a b : List Frame) : Except FlowError (List Frame) :=
  if a.length ≠ b.length then .error (.depths a.length b.length target owner)
  else if a.map Frame.width ≠ b.map Frame.width then .error (.categories target owner)
  else .ok (List.zipWith Frame.meet a b)

/-- Takes a stack along one edge. A stack that goes back in the code forgets what it knows. -/
def follow (owner : String) (index : Nat) (opcode : Opcode) (p : Progress)
    (edge : Nat × List Frame) : Except FlowError Progress :=
  let (target, stack) := edge
  if h : target < p.incoming.size then
    let stack := if target ≤ index then stack.map Frame.forget else stack
    match p.incoming[target] with
    | none =>
      .ok { p with
        incoming := p.incoming.set target (some stack)
        pending := Frame.insertOrigin target p.pending }
    | some known =>
      match meetStacks owner target known stack with
      | .error e => .error e
      | .ok merged =>
        if Frame.sameAll known merged then .ok p
        else
          .ok { p with
            incoming := p.incoming.set target (some merged)
            pending := Frame.insertOrigin target p.pending }
  else .error (.leavesBody owner index opcode)

def visit (owner : String) (code : Array Instruction) (index : Nat) (p : Progress) :
    Except FlowError Progress :=
  match code[index]?, (p.incoming[index]?).join with
  | some i, some stack =>
    match transfer owner index i stack with
    | .error e => .error e
    | .ok (entry, after) =>
      (successors index i after).foldlM (follow owner index i.opcode)
        { p with entries := p.entries.setIfInBounds index (some entry) }
  | _, _ => .ok p

def iterate (owner : String) (code : Array Instruction) : Nat → Progress → Except FlowError Progress
  | 0, _ => .error .outOfFuel
  | fuel + 1, p =>
    match p.pending with
    | [] => .ok p
    | index :: rest =>
      match visit owner code index { p with pending := rest } with
      | .error e => .error e
      | .ok p => iterate owner code fuel p

/-- More visits than any search over `n` instructions needs: each of at most `2 * n` entries of a
stack changes at most `n + 2` times. -/
def fuelFor (n : Nat) : Nat := 2 + n * (1 + 2 * n * (n + 2))

/-- The fixed point for a body that belongs to class `owner`: the stack known at each instruction in the
end, and the entries. -/
def solve (owner : String) (b : MethodBody) : Except FlowError Progress :=
  if b.size = 0 then .ok ⟨#[], #[], []⟩
  else iterate owner b.instructions (fuelFor b.size) (.start b.size)

/-- The frames at each instruction of a body that belongs to class `owner`. -/
def analyze (owner : String) (b : MethodBody) : Except FlowError Analysis :=
  (solve owner b).map fun p => ⟨p.entries⟩

end Flow

end Jvm
