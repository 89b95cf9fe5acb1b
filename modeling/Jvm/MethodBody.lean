import Jvm.Error
import Jvm.Instruction

/-!
# Method bodies

A body is a list of instructions and the number of its local variable slots. Removing an instruction
renames the targets behind it; `validate` says whether all targets lie inside.
-/

namespace Jvm

/-- The code of a method. -/
structure MethodBody where
  instructions : Array Instruction
  maxLocals : UInt16
deriving DecidableEq

namespace Instruction

/-- The slots that a load or store of the opcode's type takes up. -/
def slotWidth (i : Instruction) : Nat :=
  match i.opcode with
  | .load .long | .load .double | .store .long | .store .double => 2
  | _ => 1

/-- One more than the last slot that the instruction names; it stays at the largest number. -/
def requiredSlots (i : Instruction) : Nat :=
  match i.operand with
  | .slot index | .increment index _ => min (index.toNat + i.slotWidth) 0xffff
  | _ => 0

end Instruction

namespace MethodBody

def requiredLocals (code : Array Instruction) : Nat :=
  code.foldl (fun n i => max n i.requiredSlots) 0

/-- A body with at least the given number of slots. -/
def withMaxLocals (code : Array Instruction) (slots : UInt16) : MethodBody :=
  { instructions := code, maxLocals := (max slots.toNat (requiredLocals code)).toUInt16 }

/-- A body with as many slots as its instructions name. -/
def ofInstructions (code : Array Instruction) : MethodBody := withMaxLocals code 0

def size (b : MethodBody) : Nat := b.instructions.size

/-- A target after the instruction at `index` is gone. -/
def shiftTarget (index target : Nat) : Nat := if index < target then target - 1 else target

/-- Takes out an instruction; the rest closes up, and targets behind it follow. -/
def remove (b : MethodBody) (index : Nat) : Except Error (Instruction × MethodBody) :=
  match b.instructions[index]? with
  | none => .error .outOfBounds
  | some removed =>
    .ok (removed,
      { b with
        instructions :=
          (b.instructions.eraseIdxIfInBounds index).map (·.retarget (shiftTarget index)) })

/-- The first branch that leaves the body: its index, opcode and target. -/
def strayBranch? (b : MethodBody) : Option (Nat × Opcode × Nat) :=
  b.instructions.toList.zipIdx.findSome? fun (i, index) =>
    (i.targets.find? (b.size ≤ ·)).map fun target => (index, i.opcode, target)

/-- Refuses branches that leave the body. -/
def validate (b : MethodBody) : Except Error Unit :=
  match b.strayBranch? with
  | none => .ok ()
  | some (index, opcode, target) => .error (.malformed (.branch index opcode target b.size))

end MethodBody

end Jvm
