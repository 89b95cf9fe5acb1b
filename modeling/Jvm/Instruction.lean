import Jvm.Descriptor
import Jvm.Ieee
import Jvm.Opcode
import Jvm.Text.Quoted
import Jvm.Text.Units

/-!
# Instructions

Constants, operands and instructions, and their text. An instruction pairs any opcode with any
operand; which operands an opcode needs is checked where it is analysed or executed.
-/

namespace Jvm

/-- The words that a value takes up on the stack. -/
inductive Width where
  | single
  | double
deriving DecidableEq, Repr, Inhabited

def Width.words : Width → Nat
  | single => 1
  | double => 2

/-- A constant of the constant pool. -/
inductive Constant where
  | int (value : Int32)
  | long (value : Int64)
  | float (value : Float32)
  | double (value : Float)
  | string (value : Units)
  | classRef (name : String)
deriving DecidableEq

namespace Constant

def string? : Constant → Option Units
  | string value => some value
  | _ => none

/-- Two words for `long` and `double`. -/
def width : Constant → Width
  | long _ | double _ => .double
  | _ => .single

/-- Equality of constants in which numbers are compared as numbers: a NaN differs from itself, and
both zeros are equal. -/
def same : Constant → Constant → Bool
  | int a, int b => a == b
  | long a, long b => a == b
  | float a, float b => singleEq a b
  | double a, double b => doubleEq a b
  | string a, string b => a == b
  | classRef a, classRef b => a == b
  | _, _ => false

def text : Constant → String
  | int value => toString value.toInt
  | long value => toString value.toInt ++ "L"
  | float value => singleText value ++ "F"
  | double value => doubleText value ++ "D"
  | string value => Text.quoted value.toStringLossy
  | classRef name => name ++ ".class"

end Constant

/-- A field or method of a class. -/
structure MemberRef where
  owner : String
  name : String
  descriptor : String
deriving DecidableEq, Repr

namespace MemberRef

def signature (m : MemberRef) : String := m.name ++ m.descriptor

def text (m : MemberRef) : String := m.owner ++ "." ++ m.name ++ m.descriptor

end MemberRef

/-- Element types of arrays of primitives. -/
inductive ArrayType where
  | boolean
  | char
  | float
  | double
  | byte
  | short
  | int
  | long
deriving DecidableEq, Repr

namespace ArrayType

/-- All types, in the order of their codes, which begin with 4. -/
def all : List ArrayType := [boolean, char, float, double, byte, short, int, long]

/-- The number that stands for the type in an instruction. -/
def code : ArrayType → Nat
  | boolean => 4
  | char => 5
  | float => 6
  | double => 7
  | byte => 8
  | short => 9
  | int => 10
  | long => 11

def ofCode? (n : Nat) : Option ArrayType := all.find? (·.code == n)

def fieldType : ArrayType → FieldType
  | boolean => .boolean
  | char => .char
  | float => .float
  | double => .double
  | byte => .byte
  | short => .short
  | int => .int
  | long => .long

def descriptor (t : ArrayType) : String := t.fieldType.descriptor

end ArrayType

/-- What follows an opcode. -/
inductive Operand where
  | none
  | int (value : Int32)
  | const (value : Constant)
  | slot (index : UInt16)
  | increment (index : UInt16) (delta : Int16)
  | jump (target : Nat)
  | table (low high : Int32) (fallback : Nat) (targets : List Nat)
  | lookup (fallback : Nat) (pairs : List (Int32 × Nat))
  | field (member : MemberRef)
  | method (member : MemberRef)
  | dynamic (name descriptor : String)
  | classRef (name : String)
  | newArray (elements : ArrayType)
  | multiArray (descriptor : String) (dimensions : UInt8)
deriving DecidableEq

/-- One instruction of a body. -/
structure Instruction where
  opcode : Opcode
  operand : Operand
deriving DecidableEq

def bracketed (items : List String) : String := "[" ++ String.intercalate ", " items ++ "]"

namespace Operand

/-- Where control may go other than to the next instruction: a fallback comes first. -/
def targets : Operand → List Nat
  | jump target => [target]
  | table _ _ fallback targets => fallback :: targets
  | lookup fallback pairs => fallback :: pairs.map (·.2)
  | _ => []

/-- Renames the targets. -/
def retarget (f : Nat → Nat) : Operand → Operand
  | jump target => jump (f target)
  | table low high fallback targets => table low high (f fallback) (targets.map f)
  | lookup fallback pairs => lookup (f fallback) (pairs.map fun p => (p.1, f p.2))
  | operand => operand

/-- The operand in words, with the blank that separates it from the opcode. -/
def text : Operand → String
  | none => ""
  | int value => " " ++ toString value.toInt
  | const value => " " ++ value.text
  | slot index => " " ++ toString index.toNat
  | increment index delta => " " ++ toString index.toNat ++ " " ++ toString delta.toInt
  | jump target => s!" @{target}"
  | table low high fallback targets =>
    " " ++ toString low.toInt ++ ".." ++ toString high.toInt ++ " "
      ++ bracketed (targets.map toString) ++ s!" default @{fallback}"
  | lookup fallback pairs =>
    " " ++ bracketed (pairs.map fun p => "(" ++ toString p.1.toInt ++ ", " ++ toString p.2 ++ ")")
      ++ s!" default @{fallback}"
  | field member | method member => " " ++ member.text
  | dynamic name descriptor => " " ++ name ++ descriptor
  | classRef name => " " ++ name
  | newArray elements => " " ++ elements.descriptor
  | multiArray descriptor dimensions => " " ++ descriptor ++ " " ++ toString dimensions.toNat

end Operand

namespace Instruction

def member? (i : Instruction) : Option MemberRef :=
  match i.operand with
  | .field member | .method member => some member
  | _ => none

def constant? (i : Instruction) : Option Constant :=
  match i.operand with
  | .const value => some value
  | _ => none

/-- Where control may go other than to the next instruction. -/
def targets (i : Instruction) : List Nat := i.operand.targets

/-- Renames the targets. -/
def retarget (f : Nat → Nat) (i : Instruction) : Instruction :=
  { i with operand := i.operand.retarget f }

/-- The next instruction in line may be reached from here. -/
def fallsThrough (i : Instruction) : Bool := !i.opcode.endsBlock

def text (i : Instruction) : String := i.opcode.mnemonic ++ i.operand.text

end Instruction

end Jvm
