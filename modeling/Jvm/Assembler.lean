import Jvm.MethodBody

/-!
# Assembler

A body written down with names for the places that branches go to. `assemble` binds each name to the
number of instructions in front of it and puts that number into the branches. It refuses a name that
is bound twice, then one that is not bound, then a target outside of the body.
-/

namespace Jvm

/-- One line of assembly. -/
inductive AsmItem where
  | label (name : String)
  | emit (instruction : Instruction)
  | jump (opcode : Opcode) (label : String)
  /-- The labels are for the keys `low`, `low + 1`, …. -/
  | tableSwitch (low : Int32) (fallback : String) (labels : List String)
  | lookupSwitch (fallback : String) (pairs : List (Int32 × String))
deriving DecidableEq

namespace AsmItem

def op (opcode : Opcode) : AsmItem := emit ⟨opcode, .none⟩

def ldc (c : Constant) : AsmItem := emit ⟨.ldc, .const c⟩

def pushInt (value : Int32) : AsmItem :=
  let n := value.toInt
  if h : -1 ≤ n ∧ n ≤ 5 then op (.iconst ⟨(n + 1).toNat, by omega⟩)
  else if -128 ≤ n ∧ n ≤ 127 then emit ⟨.bipush, .int value⟩
  else if -32768 ≤ n ∧ n ≤ 32767 then emit ⟨.sipush, .int value⟩
  else ldc (.int value)

/-- Pushes a `long` in the shortest way. -/
def pushLong (value : Int64) : AsmItem :=
  if value = 0 then op (.lconst 0)
  else if value = 1 then op (.lconst 1)
  else ldc (.long value)

def bound? : AsmItem → Option String
  | label name => some name
  | _ => none

/-- The names that the item refers to, in the order in which they are looked up. -/
def uses : AsmItem → List String
  | jump _ name => [name]
  | tableSwitch _ fallback labels => fallback :: labels
  | lookupSwitch fallback pairs => fallback :: pairs.map (·.2)
  | _ => []

/-- The highest key of a table with `count` entries from `low` on; it stays within 32 bits. -/
def highKey (low : Int32) (count : Nat) : Int32 :=
  let last : Int := min (low.toInt + min count 0x7fffffff) 0x7fffffff - 1
  Int32.ofInt (max last (-0x80000000))

/-- The instruction of an item when names stand for indices; a label has none. -/
def instruction? (place : String → Nat) : AsmItem → Option Instruction
  | label _ => none
  | emit i => some i
  | jump opcode name => some ⟨opcode, .jump (place name)⟩
  | tableSwitch low fallback labels =>
    some ⟨.tableSwitch,
      .table low (highKey low labels.length) (place fallback) (labels.map place)⟩
  | lookupSwitch fallback pairs =>
    some ⟨.lookupSwitch, .lookup (place fallback) (pairs.map fun p => (p.1, place p.2))⟩

end AsmItem

namespace Assembler

/-- The names with the number of instructions in front of each; `index` counts from the start. -/
def bindings (index : Nat) : List AsmItem → List (String × Nat)
  | [] => []
  | .label name :: rest => (name, index) :: bindings index rest
  | _ :: rest => bindings (index + 1) rest

/-- The first name that occurs a second time. -/
def firstRepeated (seen : List String) : List String → Option String
  | [] => none
  | name :: rest => if seen.contains name then some name else firstRepeated (name :: seen) rest

/-- The body that the items describe, with at least `slots` local variables. -/
def assemble (items : List AsmItem) (slots : Option UInt16) : Except Error MethodBody :=
  match firstRepeated [] (items.filterMap (·.bound?)) with
  | some name => .error (.duplicateLabel name)
  | none =>
    let places := bindings 0 items
    match (items.flatMap (·.uses)).find? fun name => (places.lookup name).isNone with
    | some name => .error (.undefinedLabel name)
    | none =>
      let code := items.filterMap (·.instruction? fun name => (places.lookup name).getD 0)
      let body := MethodBody.withMaxLocals code.toArray (slots.getD 0)
      match body.validate with
      | .error e => .error e
      | .ok () => .ok body

end Assembler

end Jvm
