import Jvm.Error
import Jvm.Flow.Frame

/-!
# Effect of an instruction on frames

What each instruction takes off a stack of frames and what it leaves there. Copies and exchanges move
frames and count as taking nothing.
-/

namespace Jvm

/-- What an instruction takes, bottom first, and what it leaves. -/
structure FlowEntry where
  consumed : List Frame
  produced : Option Frame
deriving Inhabited

namespace Flow

/-- The result of one instruction: its entry and the stack after it, top first. -/
abbrev Effect := Except FlowError (FlowEntry × List Frame)

/-- The `n` frames on top, bottom first, and the rest. -/
def popN (n : Nat) (stack : List Frame) : Except FlowError (List Frame × List Frame) :=
  if stack.length < n then .error .underflow else .ok ((stack.take n).reverse, stack.drop n)

/-- Takes `n` frames and leaves at most one. -/
def replace (n : Nat) (produced : Option Frame) (stack : List Frame) : Effect :=
  match popN n stack with
  | .error e => .error e
  | .ok (consumed, rest) => .ok (⟨consumed, produced⟩, produced.toList ++ rest)

def rearrange (moved : Except FlowError (List Frame)) : Effect :=
  moved.map fun stack => (⟨[], none⟩, stack)

def widthOf (t : FieldType) : Width := if t.slots = 2 then .double else .single

def slotWidth : SlotType → Width
  | .long | .double => .double
  | _ => .single

def elemWidth : ElemType → Width
  | .long | .double => .double
  | _ => .single

def numWidth : NumType → Width
  | .long | .double => .double
  | _ => .single

def intWidth : IntSize → Width
  | .long => .double
  | .int => .single

def conversionWidth : Conversion → Width
  | .i2l | .i2d | .l2d | .f2l | .f2d | .d2l => .double
  | _ => .single

/-- The failure of a stack instruction, with its place. -/
def located {α : Type} (owner : String) (index : Nat) (opcode : Opcode) :
    Except Fault α → Except FlowError α
  | .ok a => .ok a
  | .error f => .error (.fault f index opcode owner)

/-- A call: takes the arguments and, unless `static`, a receiver. Its frame names the arguments, also
where the call has no result to push. -/
def call (index : Nat) (static : Bool) (m : MemberRef) (stack : List Frame) : Effect :=
  match MethodDescriptor.parse m.descriptor with
  | .error cause => .error (.descriptor cause)
  | .ok d =>
    match popN (d.parameters.length + (!static).toNat) stack with
    | .error e => .error e
    | .ok (arguments, rest) =>
      let frame := Frame.call m.owner m.name m.descriptor arguments index (widthOf d.returns)
      .ok (⟨arguments, some frame⟩, if d.returns.isVoid then rest else frame :: rest)

/-- The effect of the instruction at `index` in a body of class `owner`. -/
def transfer (owner : String) (index : Nat) (i : Instruction) (stack : List Frame) : Effect :=
  let name := i.opcode.mnemonic
  let computed (w : Width) : Option Frame := some (.computed name index w)
  let literal (c : Constant) : Effect := replace 0 (some (.literal c index)) stack
  let lacks (needed : String) : Effect := .error (.noOperand i.opcode needed)
  match i.opcode with
  | .nop | .iinc | .goto | .voidReturn | .ret => replace 0 none stack
  | .aconstNull => replace 0 (computed .single) stack
  | .iconst n => literal (.int (Int32.ofNat n - 1))
  | .lconst n => literal (.long (Int64.ofNat n))
  | .fconst n => literal (.float (Float32.ofNat n))
  | .dconst n => literal (.double (Float.ofNat n))
  | .bipush | .sipush =>
    match i.operand with
    | .int value => literal (.int value)
    | _ => lacks "an immediate"
  | .ldc =>
    match i.constant? with
    | some c => literal c
    | none => lacks "a constant"
  | .load t =>
    match i.operand with
    | .slot slot => replace 0 (some (.slot slot index (slotWidth t))) stack
    | _ => lacks "a local index"
  | .store _ => replace 1 none stack
  | .arrayLoad t => replace 2 (some (.arrayLoad index (elemWidth t))) stack
  | .arrayStore _ => replace 3 none stack
  | .arrayLength => replace 1 (computed .single) stack
  | .newArray =>
    match i.operand with
    | .newArray t => replace 1 (some (.new ("[" ++ t.descriptor) index .single)) stack
    | _ => lacks "an array type"
  | .anewArray =>
    match i.operand with
    | .classRef name =>
      match FieldType.ofClassOperand name with
      | .error cause => .error (.descriptor cause)
      | .ok component => replace 1 (some (.new ("[" ++ component.descriptor) index .single)) stack
    | _ => lacks "a class operand"
  | .multiNewArray =>
    match i.operand with
    | .multiArray descriptor dimensions =>
      replace dimensions.toNat (some (.new descriptor index .single)) stack
    | _ => lacks "a descriptor"
  | .pop | .pop2 =>
    match located owner index i.opcode
      (Words.takeWords name (if i.opcode = .pop then 1 else 2) stack) with
    | .error e => .error e
    | .ok (taken, rest) => .ok (⟨taken.reverse, none⟩, rest)
  | .dup wide under =>
    rearrange (located owner index i.opcode
      (Words.dupWords name (if wide then 2 else 1) under stack))
  | .swap => rearrange (located owner index i.opcode (Words.swap stack))
  | .arith _ t => replace 2 (computed (numWidth t)) stack
  | .shift _ s | .bits _ s => replace 2 (computed (intWidth s)) stack
  | .lcmp | .fcmp _ | .dcmp _ => replace 2 (computed .single) stack
  | .neg t => replace 1 (computed (numWidth t)) stack
  | .convert c => replace 1 (computed (conversionWidth c)) stack
  | .ifInt _ | .ifNull _ | .tableSwitch | .lookupSwitch | .valueReturn _ | .athrow | .monitor _
  | .putStatic => replace 1 none stack
  | .ifIntCmp _ | .ifRefCmp _ | .putField => replace 2 none stack
  | .jsr => replace 0 (computed .single) stack
  | .getStatic | .getField =>
    match i.operand with
    | .field m =>
      match popN (if i.opcode = .getField then 1 else 0) stack with
      | .error e => .error e
      | .ok (consumed, rest) =>
        match FieldType.parse m.descriptor with
        | .error cause => .error (.descriptor cause)
        | .ok t =>
          let frame := Frame.field m.owner m.name index (widthOf t)
          .ok (⟨consumed, some frame⟩, frame :: rest)
    | _ => lacks "a field reference"
  | .invoke kind =>
    match i.operand with
    | .method m => call index (kind = .static) m stack
    | _ => lacks "a method reference"
  | .invokeDynamic =>
    match i.operand with
    | .dynamic _ descriptor =>
      match MethodDescriptor.parse descriptor with
      | .error cause => .error (.descriptor cause)
      | .ok d =>
        replace d.parameters.length
          (if d.returns.isVoid then none else computed (widthOf d.returns)) stack
    | _ => lacks "a call site"
  | .new =>
    match i.operand with
    | .classRef name => replace 0 (some (.new name index .single)) stack
    | _ => lacks "a class operand"
  | .checkCast =>
    match stack with
    | [] => .error .underflow
    | value :: rest => .ok (⟨[value], some value⟩, value :: rest)
  | .instanceOf => replace 1 (computed .single) stack

end Flow

end Jvm
