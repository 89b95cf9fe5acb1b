/-!
# Opcodes

The instructions of the machine by family: an opcode is its family and what varies in it, such as the
type of a load or the condition of a branch. The short forms that fold an operand into the opcode
(`iload_0`, `ldc_w`, `goto_w`, `wide`) do not occur. `code` and `mnemonic` are the byte and the name.
-/

namespace Jvm

/-- Types of arithmetic. -/
inductive NumType where
  | int
  | long
  | float
  | double
deriving DecidableEq, Repr

/-- Types of loads, stores and returns. -/
inductive SlotType where
  | int
  | long
  | float
  | double
  | ref
deriving DecidableEq, Repr

/-- Types of array elements in loads and stores; `byte` serves `boolean` arrays as well. -/
inductive ElemType where
  | int
  | long
  | float
  | double
  | ref
  | byte
  | char
  | short
deriving DecidableEq, Repr

/-- The four operations and the remainder. -/
inductive ArithOp where
  | add
  | sub
  | mul
  | div
  | rem
deriving DecidableEq, Repr

/-- Shifts; `logicalRight` fills with zeros. -/
inductive ShiftOp where
  | left
  | right
  | logicalRight
deriving DecidableEq, Repr

/-- Operations on bits. -/
inductive BitOp where
  | and
  | or
  | xor
deriving DecidableEq, Repr

/-- The two integer types of shifts and bit operations. -/
inductive IntSize where
  | int
  | long
deriving DecidableEq, Repr

/-- Conversions between numeric types. -/
inductive Conversion where
  | i2l
  | i2f
  | i2d
  | l2i
  | l2f
  | l2d
  | f2i
  | f2l
  | f2d
  | d2i
  | d2l
  | d2f
  | i2b
  | i2c
  | i2s
deriving DecidableEq, Repr

/-- Conditions on two integers, or on one and zero. -/
inductive Cond where
  | eq
  | ne
  | lt
  | ge
  | gt
  | le
deriving DecidableEq, Repr

/-- How a call picks its method. -/
inductive InvokeKind where
  | virtual
  | special
  | static
  | interface
deriving DecidableEq, Repr, Inhabited

-- numerals in the operands of `iconst`, `lconst`, `fconst`, `dconst` and `dup` refer to these by name
instance neZeroTwo : @NeZero Nat Zero.ofOfNat0 2 := ⟨Nat.succ_ne_zero 1⟩

instance neZeroThree : @NeZero Nat Zero.ofOfNat0 3 := ⟨Nat.succ_ne_zero 2⟩

instance neZeroSeven : @NeZero Nat Zero.ofOfNat0 7 := ⟨Nat.succ_ne_zero 6⟩

/-- An instruction without its operand. -/
inductive Opcode where
  | nop
  | aconstNull
  /-- Pushes `n - 1`. -/
  | iconst (n : Fin 7)
  | lconst (n : Fin 2)
  | fconst (n : Fin 3)
  | dconst (n : Fin 2)
  | bipush
  | sipush
  | ldc
  | load (type : SlotType)
  | arrayLoad (type : ElemType)
  | store (type : SlotType)
  | arrayStore (type : ElemType)
  | pop
  | pop2
  /-- Copies one word, or two if `wide`, below `under` further words. -/
  | dup (wide : Bool) (under : Fin 3)
  | swap
  | arith (op : ArithOp) (type : NumType)
  | neg (type : NumType)
  | shift (op : ShiftOp) (size : IntSize)
  | bits (op : BitOp) (size : IntSize)
  | iinc
  | convert (c : Conversion)
  | lcmp
  /-- Pushes 1 rather than -1 for a NaN if `nanGreater`. -/
  | fcmp (nanGreater : Bool)
  | dcmp (nanGreater : Bool)
  | ifInt (c : Cond)
  | ifIntCmp (c : Cond)
  /-- Jumps on equal references if `equal`, else on different ones. -/
  | ifRefCmp (equal : Bool)
  | goto
  | jsr
  | ret
  | tableSwitch
  | lookupSwitch
  | valueReturn (type : SlotType)
  | voidReturn
  | getStatic
  | putStatic
  | getField
  | putField
  | invoke (kind : InvokeKind)
  | invokeDynamic
  | new
  | newArray
  | anewArray
  | arrayLength
  | athrow
  | checkCast
  | instanceOf
  | monitor (enter : Bool)
  | multiNewArray
  /-- Jumps on null if `null`, else on anything else. -/
  | ifNull (null : Bool)
deriving DecidableEq, Repr

/-- Position in a group of opcodes that goes through the types in order. -/
def NumType.index : NumType → Nat
  | int => 0
  | long => 1
  | float => 2
  | double => 3

def NumType.letter : NumType → String
  | int => "i"
  | long => "l"
  | float => "f"
  | double => "d"

/-- All types of arithmetic, in the order of their opcodes. -/
def NumType.all : List NumType := [int, long, float, double]

/-- Position in a group of opcodes that goes through the types in order. -/
def SlotType.index : SlotType → Nat
  | int => 0
  | long => 1
  | float => 2
  | double => 3
  | ref => 4

def SlotType.letter : SlotType → String
  | int => "i"
  | long => "l"
  | float => "f"
  | double => "d"
  | ref => "a"

/-- All types of loads and stores, in the order of their opcodes. -/
def SlotType.all : List SlotType := [int, long, float, double, ref]

/-- Position in a group of opcodes that goes through the types in order. -/
def ElemType.index : ElemType → Nat
  | int => 0
  | long => 1
  | float => 2
  | double => 3
  | ref => 4
  | byte => 5
  | char => 6
  | short => 7

def ElemType.letter : ElemType → String
  | int => "i"
  | long => "l"
  | float => "f"
  | double => "d"
  | ref => "a"
  | byte => "b"
  | char => "c"
  | short => "s"

/-- All types of array elements, in the order of their opcodes. -/
def ElemType.all : List ElemType := [int, long, float, double, ref, byte, char, short]

def ArithOp.index : ArithOp → Nat
  | add => 0
  | sub => 1
  | mul => 2
  | div => 3
  | rem => 4

def ArithOp.name : ArithOp → String
  | add => "add"
  | sub => "sub"
  | mul => "mul"
  | div => "div"
  | rem => "rem"

def ArithOp.all : List ArithOp := [add, sub, mul, div, rem]

def ShiftOp.index : ShiftOp → Nat
  | left => 0
  | right => 1
  | logicalRight => 2

def ShiftOp.name : ShiftOp → String
  | left => "shl"
  | right => "shr"
  | logicalRight => "ushr"

def ShiftOp.all : List ShiftOp := [left, right, logicalRight]

def BitOp.index : BitOp → Nat
  | and => 0
  | or => 1
  | xor => 2

def BitOp.name : BitOp → String
  | and => "and"
  | or => "or"
  | xor => "xor"

def BitOp.all : List BitOp := [and, or, xor]

def IntSize.index : IntSize → Nat
  | int => 0
  | long => 1

/-- The letter in front of a mnemonic. -/
def IntSize.letter : IntSize → String
  | int => "i"
  | long => "l"

def IntSize.all : List IntSize := [int, long]

def Conversion.index : Conversion → Nat
  | i2l => 0
  | i2f => 1
  | i2d => 2
  | l2i => 3
  | l2f => 4
  | l2d => 5
  | f2i => 6
  | f2l => 7
  | f2d => 8
  | d2i => 9
  | d2l => 10
  | d2f => 11
  | i2b => 12
  | i2c => 13
  | i2s => 14

def Conversion.name : Conversion → String
  | i2l => "i2l"
  | i2f => "i2f"
  | i2d => "i2d"
  | l2i => "l2i"
  | l2f => "l2f"
  | l2d => "l2d"
  | f2i => "f2i"
  | f2l => "f2l"
  | f2d => "f2d"
  | d2i => "d2i"
  | d2l => "d2l"
  | d2f => "d2f"
  | i2b => "i2b"
  | i2c => "i2c"
  | i2s => "i2s"

def Conversion.all : List Conversion :=
  [i2l, i2f, i2d, l2i, l2f, l2d, f2i, f2l, f2d, d2i, d2l, d2f, i2b, i2c, i2s]

def Cond.index : Cond → Nat
  | eq => 0
  | ne => 1
  | lt => 2
  | ge => 3
  | gt => 4
  | le => 5

def Cond.name : Cond → String
  | eq => "eq"
  | ne => "ne"
  | lt => "lt"
  | ge => "ge"
  | gt => "gt"
  | le => "le"

def Cond.all : List Cond := [eq, ne, lt, ge, gt, le]

def InvokeKind.index : InvokeKind → Nat
  | virtual => 0
  | special => 1
  | static => 2
  | interface => 3

def InvokeKind.name : InvokeKind → String
  | virtual => "virtual"
  | special => "special"
  | static => "static"
  | interface => "interface"

def InvokeKind.all : List InvokeKind := [virtual, special, static, interface]

namespace Opcode

def code : Opcode → Nat
  | nop => 0x00
  | aconstNull => 0x01
  | iconst n => 0x02 + n
  | lconst n => 0x09 + n
  | fconst n => 0x0b + n
  | dconst n => 0x0e + n
  | bipush => 0x10
  | sipush => 0x11
  | ldc => 0x12
  | load t => 0x15 + t.index
  | arrayLoad t => 0x2e + t.index
  | store t => 0x36 + t.index
  | arrayStore t => 0x4f + t.index
  | pop => 0x57
  | pop2 => 0x58
  | dup wide under => (if wide then 0x5c else 0x59) + under
  | swap => 0x5f
  | arith op t => 0x60 + 4 * op.index + t.index
  | neg t => 0x74 + t.index
  | shift op s => 0x78 + 2 * op.index + s.index
  | bits op s => 0x7e + 2 * op.index + s.index
  | iinc => 0x84
  | convert c => 0x85 + c.index
  | lcmp => 0x94
  | fcmp g => 0x95 + g.toNat
  | dcmp g => 0x97 + g.toNat
  | ifInt c => 0x99 + c.index
  | ifIntCmp c => 0x9f + c.index
  | ifRefCmp equal => if equal then 0xa5 else 0xa6
  | goto => 0xa7
  | jsr => 0xa8
  | ret => 0xa9
  | tableSwitch => 0xaa
  | lookupSwitch => 0xab
  | valueReturn t => 0xac + t.index
  | voidReturn => 0xb1
  | getStatic => 0xb2
  | putStatic => 0xb3
  | getField => 0xb4
  | putField => 0xb5
  | invoke k => 0xb6 + k.index
  | invokeDynamic => 0xba
  | new => 0xbb
  | newArray => 0xbc
  | anewArray => 0xbd
  | arrayLength => 0xbe
  | athrow => 0xbf
  | checkCast => 0xc0
  | instanceOf => 0xc1
  | monitor enter => if enter then 0xc2 else 0xc3
  | multiNewArray => 0xc5
  | ifNull null => if null then 0xc6 else 0xc7

def mnemonic : Opcode → String
  | nop => "nop"
  | aconstNull => "aconst_null"
  | iconst n => if n = 0 then "iconst_m1" else "iconst_" ++ toString (n.val - 1)
  | lconst n => "lconst_" ++ toString n.val
  | fconst n => "fconst_" ++ toString n.val
  | dconst n => "dconst_" ++ toString n.val
  | bipush => "bipush"
  | sipush => "sipush"
  | ldc => "ldc"
  | load t => t.letter ++ "load"
  | arrayLoad t => t.letter ++ "aload"
  | store t => t.letter ++ "store"
  | arrayStore t => t.letter ++ "astore"
  | pop => "pop"
  | pop2 => "pop2"
  | dup wide under =>
    (if wide then "dup2" else "dup") ++ (if under = 0 then "" else "_x" ++ toString under.val)
  | swap => "swap"
  | arith op t => t.letter ++ op.name
  | neg t => t.letter ++ "neg"
  | shift op s => s.letter ++ op.name
  | bits op s => s.letter ++ op.name
  | iinc => "iinc"
  | convert c => c.name
  | lcmp => "lcmp"
  | fcmp g => if g then "fcmpg" else "fcmpl"
  | dcmp g => if g then "dcmpg" else "dcmpl"
  | ifInt c => "if" ++ c.name
  | ifIntCmp c => "if_icmp" ++ c.name
  | ifRefCmp equal => if equal then "if_acmpeq" else "if_acmpne"
  | goto => "goto"
  | jsr => "jsr"
  | ret => "ret"
  | tableSwitch => "tableswitch"
  | lookupSwitch => "lookupswitch"
  | valueReturn t => t.letter ++ "return"
  | voidReturn => "return"
  | getStatic => "getstatic"
  | putStatic => "putstatic"
  | getField => "getfield"
  | putField => "putfield"
  | invoke k => "invoke" ++ k.name
  | invokeDynamic => "invokedynamic"
  | new => "new"
  | newArray => "newarray"
  | anewArray => "anewarray"
  | arrayLength => "arraylength"
  | athrow => "athrow"
  | checkCast => "checkcast"
  | instanceOf => "instanceof"
  | monitor enter => if enter then "monitorenter" else "monitorexit"
  | multiNewArray => "multianewarray"
  | ifNull null => if null then "ifnull" else "ifnonnull"

def all : List Opcode :=
  [nop, aconstNull] ++ (List.finRange 7).map iconst ++ (List.finRange 2).map lconst
    ++ (List.finRange 3).map fconst ++ (List.finRange 2).map dconst ++ [bipush, sipush, ldc]
    ++ SlotType.all.map load ++ ElemType.all.map arrayLoad ++ SlotType.all.map store
    ++ ElemType.all.map arrayStore ++ [pop, pop2]
    ++ [false, true].flatMap (fun wide => (List.finRange 3).map (dup wide)) ++ [swap]
    ++ ArithOp.all.flatMap (fun op => NumType.all.map (arith op)) ++ NumType.all.map neg
    ++ ShiftOp.all.flatMap (fun op => IntSize.all.map (shift op))
    ++ BitOp.all.flatMap (fun op => IntSize.all.map (bits op)) ++ [iinc]
    ++ Conversion.all.map convert ++ [lcmp] ++ [false, true].map fcmp ++ [false, true].map dcmp
    ++ Cond.all.map ifInt ++ Cond.all.map ifIntCmp ++ [true, false].map ifRefCmp
    ++ [goto, jsr, ret, tableSwitch, lookupSwitch] ++ SlotType.all.map valueReturn
    ++ [voidReturn, getStatic, putStatic, getField, putField] ++ InvokeKind.all.map invoke
    ++ [invokeDynamic, new, newArray, anewArray, arrayLength, athrow, checkCast, instanceOf]
    ++ [true, false].map monitor ++ [multiNewArray] ++ [true, false].map ifNull

def ofMnemonic? (name : String) : Option Opcode := all.find? (·.mnemonic == name)

/-- Branches that may be taken or not. -/
def isConditional : Opcode → Bool
  | ifInt _ | ifIntCmp _ | ifRefCmp _ | ifNull _ => true
  | _ => false

def isInvoke : Opcode → Bool
  | invoke _ => true
  | _ => false

def isReturn : Opcode → Bool
  | valueReturn _ | voidReturn => true
  | _ => false

/-- The next instruction in line is not reached from here. -/
def endsBlock : Opcode → Bool
  | goto | athrow | tableSwitch | lookupSwitch | ret => true
  | op => op.isReturn

end Opcode

end Jvm
