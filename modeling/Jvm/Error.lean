import Jvm.Archive.Error
import Jvm.Descriptor
import Jvm.Fault

/-!
# Errors

Every way in which an operation of the library fails, with its text. Input that is malformed says
what is wrong with it; a fault of a running method is one case among the others.
-/

namespace Jvm

/-- Why a body has no consistent stack at each instruction. -/
inductive FlowError where
  | underflow
  /-- The operand lacks what the opcode needs. -/
  | noOperand (opcode : Opcode) (needed : String)
  /-- A descriptor in an operand cannot be read. -/
  | descriptor (cause : DescriptorError)
  /-- A stack instruction fails. -/
  | fault (fault : Fault) (index : Nat) (opcode : Opcode) (owner : String)
  | leavesBody (owner : String) (index : Nat) (opcode : Opcode)
  | depths (first second target : Nat) (owner : String)
  | categories (target : Nat) (owner : String)
  /-- The search for a fixed point was cut off. -/
  | outOfFuel
deriving DecidableEq, Repr

def FlowError.text : FlowError → String
  | underflow => "Operand stack underflow"
  | noOperand opcode needed => opcode.mnemonic ++ " without " ++ needed
  | descriptor cause => cause.text
  | fault f index opcode owner =>
    "Emulation failed - " ++ f.text ++ s!" at instruction {index} (" ++ opcode.mnemonic
      ++ s!") of {owner}"
  | leavesBody owner index opcode =>
    s!"Control leaves the body of {owner} at instruction {index} (" ++ opcode.mnemonic ++ ")"
  | depths first second target owner =>
    s!"Stacks of depth {first} and {second} meet at instruction {target} of {owner}"
  | categories target owner => s!"Stack categories disagree at instruction {target} of {owner}"
  | outOfFuel => "Analysis was cut off"

/-- What is wrong with malformed input. -/
inductive Malformation where
  | descriptor (cause : DescriptorError)
  | branch (index : Nat) (opcode : Opcode) (target size : Nat)
  | flow (cause : FlowError)
  | archive (cause : ArchiveError)
deriving DecidableEq, Repr

def Malformation.text : Malformation → String
  | descriptor cause => cause.text
  | branch index opcode target size =>
    s!"Instruction {index} (" ++ opcode.mnemonic
      ++ s!") branches to {target} outside of a {size} instruction body"
  | flow cause => cause.text
  | archive cause => cause.text

/-- A failure of an operation. -/
inductive Error where
  | malformed (cause : Malformation)
  | outOfBounds
  | empty
  /-- A file could not be read. -/
  | file (reason : String)
  /-- A failure with a text of its own. -/
  | other (text : String)
  | duplicateLabel (name : String)
  | undefinedLabel (name : String)
  | configuration (reason : String)
  | emulation (fault : Fault)
deriving DecidableEq, Repr

namespace Error

def text : Error → String
  | malformed cause => "Malformed - " ++ cause.text
  | outOfBounds => "Out of Bound read would have occurred!"
  | empty => "Provided input was empty"
  | file reason => reason
  | other text => text
  | duplicateLabel name => s!"Duplicate label - {name}"
  | undefinedLabel name => s!"Undefined label - {name}"
  | configuration reason => s!"Invalid configuration - {reason}"
  | emulation fault => "Emulation failed - " ++ fault.text

def label : Error → String
  | malformed _ => "Malformed"
  | outOfBounds => "OutOfBounds"
  | empty => "Empty"
  | file _ => "FileError"
  | other _ => "Error"
  | duplicateLabel _ => "DuplicateLabel"
  | undefinedLabel _ => "UndefinedLabel"
  | configuration _ => "Configuration"
  | emulation f => f.label

/-- The kind of the fault, if the error is one. -/
def faultKind : Error → Option FaultKind
  | emulation fault => some fault.kind
  | _ => none

end Error

instance : Coe Fault Error := ⟨.emulation⟩

instance : Coe DescriptorError Error := ⟨fun cause => .malformed (.descriptor cause)⟩

end Jvm
