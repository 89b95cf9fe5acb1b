import Jvm.Proofs.Integers
import Jvm.Proofs.Machine.FieldAccess
import Jvm.Proofs.Machine.Intents

/-!
# Calculations with integers

What an instruction calculates is given by `Opcode.calculation?` on numbers without bounds. `integers_calculated`:
executing it takes the operands from the stack and leaves the number with the same remainder in the range of its
type, if there is room for it; it fails exactly where there is no result, that is for a division by zero. Quotients
and remainders are related as `Divided` says.
-/

namespace Jvm

/-- What an instruction calculates from operands of these types; of two operands the right one is on top. -/
inductive Calculation where
  | unary (operand result : IntSize) (f : Int → Int)
  | binary (left right result : IntSize) (f : Int → Int → Option Int)

/-- The calculations on integers alone. -/
def Opcode.calculation? : Opcode → Option Calculation
  | .arith op .int => some (.binary .int .int .int op.onNumbers?)
  | .arith op .long => some (.binary .long .long .long op.onNumbers?)
  | .neg .int => some (.unary .int .int fun a => -a)
  | .neg .long => some (.unary .long .long fun a => -a)
  | .shift op size => some (.binary size .int size fun a distance => some (op.onNumbers size.bits a distance))
  | .bits op size => some (.binary size size size fun a b => some (Int.bitwise op.onBool a b))
  | .convert .i2l => some (.unary .int .long id)
  | .convert .l2i => some (.unary .long .int id)
  | .convert .i2b => some (.unary .int .int (·.bmod (2 ^ 8)))
  | .convert .i2c => some (.unary .int .int (· % 2 ^ 16))
  | .convert .i2s => some (.unary .int .int (·.bmod (2 ^ 16)))
  | _ => none

namespace IntSize

def value : (size : IntSize) → size.Word → Value
  | int, x => .int x
  | long, x => .long x

def pop (name : String) : (size : IntSize) → StackM size.Word
  | int => OperandStack.popInt name
  | long => OperandStack.popLong name

end IntSize

namespace Calculation

def result : Calculation → IntSize
  | unary _ result _ => result
  | binary _ _ result _ => result

/-- The operands stand on top of the stack, and this is what they come to and what is below them. -/
inductive Takes : Calculation → List Value → Option Int → List Value → Prop
  | unary {operand result : IntSize} {f : Int → Int} {rest : List Value} (x : operand.Word) :
      Takes (unary operand result f) (operand.value x :: rest) (some (f (operand.number x))) rest
  | binary {left right result : IntSize} {f : Int → Int → Option Int} {rest : List Value} (x : left.Word)
      (y : right.Word) : Takes (binary left right result f) (right.value y :: left.value x :: rest)
        (f (left.number x) (right.number y)) rest

/-- The result, reduced to its range, is on top of what was below the operands. -/
def Leaves (c : Calculation) (n : Int) (rest : List Value) (limit : Nat) (stack : OperandStack) : Prop :=
  ∃ z : c.result.Word, c.result.number z = n.bmod (2 ^ c.result.bits) ∧ stack.values = c.result.value z :: rest ∧
    stack.limit = limit

/-- The instruction carries the calculation out, wherever its operands are on the stack and there is room for the
result. -/
def Computes (c : Calculation) (act : Step Next) : Prop :=
  ∀ (a : Activation) (w : World) (s : State) (outcome : Option Int) (rest : List Value),
    c.Takes a.stack.values outcome rest → rest.length < a.stack.limit →
    match outcome with
    | some n => ∃ stack, act a w s = .ok (.advance, { a with stack }) s ∧ c.Leaves n rest a.stack.limit stack
    | none => act a w s = .error (.error (.emulation .divisionByZero)) s

/-- The operation carries the calculation out on a stack. -/
def OnStack (c : Calculation) (m : StackM Unit) : Prop :=
  ∀ (stack : OperandStack) (outcome : Option Int) (rest : List Value),
    c.Takes stack.values outcome rest → rest.length < stack.limit →
    match outcome with
    | some n => ∃ stack', m stack = .ok () stack' ∧ c.Leaves n rest stack.limit stack'
    | none => ∃ stack', m stack = .error .divisionByZero stack'

end Calculation

namespace OperandStack

variable {stack : OperandStack} {rest : List Value}

theorem pop_word {size : IntSize} {x : size.Word} (name : String) (h : stack.values = size.value x :: rest) :
    ∃ stack', size.pop name stack = .ok x stack' ∧ stack'.values = rest ∧ stack'.limit = stack.limit := by
  obtain ⟨stack', hpop, hrest, hlimit⟩ := pop_of_values h
  refine ⟨stack', ?_, hrest, hlimit⟩
  cases size with
  | int =>
    change (pop >>= _) stack = _
    rw [bind_apply, hpop]
    rfl
  | long =>
    change (pop >>= _) stack = _
    rw [bind_apply, hpop]
    rfl

theorem push_word {size : IntSize} (x : size.Word) (stack : OperandStack) (h : stack.values.length < stack.limit) :
    ∃ stack', push (size.value x) stack = .ok () stack' ∧ stack'.values = size.value x :: stack.values ∧
      stack'.limit = stack.limit := by
  have hvalue : ¬ (size.value x = .void ∨ size.value x = .top) := by
    cases size <;> rintro (h | h) <;> cases h
  have hroom : ¬ stack.limit ≤ stack.depth := by rw [stack.depth_eq]; omega
  rw [push, if_neg hvalue, if_neg hroom]
  exact ⟨_, rfl, rfl, rfl⟩

end OperandStack

namespace Calculation

open OperandStack

variable (operand left right result : IntSize)

theorem onStack_unary (name : String) {f : Int → Int} {m : StackM Unit} (g : operand.Word → result.Word)
    (hg : ∀ x, g x = result.reduce (f (operand.number x)))
    (hm : m = operand.pop name >>= fun x => push (result.value (g x))) : (unary operand result f).OnStack m := by
  subst hm
  intro stack outcome rest htakes hroom
  generalize hvalues : stack.values = values at htakes
  cases htakes with
  | unary x =>
    obtain ⟨stack₁, hpop, hrest, hlimit⟩ := pop_word name hvalues
    obtain ⟨stack₂, hpush, hvalues₂, hlimit₂⟩ := push_word (g x) stack₁ (by rwa [hrest, hlimit])
    refine ⟨stack₂, ?_, g x, ?_, by rw [hvalues₂, hrest]; rfl, hlimit₂.trans hlimit⟩
    · rw [bind_apply, hpop]
      exact hpush
    · rw [hg]
      exact IntSize.number_reduce _ _

theorem onStack_binary (name : String) {f : Int → Int → Option Int} {m : StackM Unit}
    (g : left.Word → right.Word → Except Fault result.Word)
    (hg : ∀ x y, g x y = result.outcome (f (left.number x) (right.number y)))
    (hm : m = right.pop name >>= fun y => left.pop name >>= fun x =>
      match g x y with
      | .ok z => push (result.value z)
      | .error e => throw e) : (binary left right result f).OnStack m := by
  subst hm
  intro stack outcome rest htakes hroom
  generalize hvalues : stack.values = values at htakes
  cases htakes with
  | binary x y =>
    obtain ⟨stack₁, hpop₁, hrest₁, hlimit₁⟩ := pop_word name hvalues
    obtain ⟨stack₂, hpop₂, hrest₂, hlimit₂⟩ := pop_word name hrest₁
    simp only [bind_apply, hpop₁, hpop₂, hg]
    cases f (left.number x) (right.number y) with
    | none => exact ⟨stack₂, rfl⟩
    | some n =>
      obtain ⟨stack₃, hpush, hvalues₃, hlimit₃⟩ :=
        push_word (result.reduce n) stack₂ (by rwa [hrest₂, hlimit₂, hlimit₁])
      refine ⟨stack₃, hpush, result.reduce n, IntSize.number_reduce _ _, by rw [hvalues₃, hrest₂]; rfl, ?_⟩
      rw [hlimit₃, hlimit₂, hlimit₁]

theorem OnStack.computes {c : Calculation} {m : StackM Unit} (h : c.OnStack m) {act : Step Next}
    (hact : act = (liftM m >>= fun _ => pure .advance)) : c.Computes act := by
  intro a w s outcome rest htakes hroom
  have hm := h a.stack outcome rest htakes hroom
  rw [hact, Step.bind_apply, Step.liftStack_apply]
  cases outcome with
  | none =>
    obtain ⟨stack, hm⟩ := hm
    rw [hm]
  | some n =>
    obtain ⟨stack, hm, hleaves⟩ := hm
    rw [hm]
    exact ⟨stack, rfl, hleaves⟩

variable (name : String)

theorem onStack_arith_int (op : ArithOp) : (binary .int .int .int op.onNumbers?).OnStack (arith name op .int) :=
  onStack_binary .int .int .int name op.onInt op.onInt_eq <|
    bind_congr fun b => bind_congr fun a => by cases op.onInt a b <;> rfl

theorem onStack_arith_long (op : ArithOp) : (binary .long .long .long op.onNumbers?).OnStack (arith name op .long) :=
  onStack_binary .long .long .long name op.onLong op.onLong_eq <|
    bind_congr fun b => bind_congr fun a => by cases op.onLong a b <;> rfl

theorem onStack_neg_int : (unary .int .int fun a => -a).OnStack (negate name .int) :=
  onStack_unary .int .int name (fun x : Int32 => -x) (fun x => IntSize.int.eq_reduce (Int32.toInt_neg x)) rfl

theorem onStack_neg_long : (unary .long .long fun a => -a).OnStack (negate name .long) :=
  onStack_unary .long .long name (fun x : Int64 => -x) (fun x => IntSize.long.eq_reduce (Int64.toInt_neg x)) rfl

theorem onStack_shift (op : ShiftOp) (size : IntSize) : (binary size .int size fun a distance =>
    some (op.onNumbers size.bits a distance)).OnStack (shift name op size) := by
  cases size with
  | int =>
    exact onStack_binary .int .int .int name (fun a d => .ok (op.onInt a d))
      (fun a d => congrArg Except.ok (op.onInt_eq a d)) rfl
  | long =>
    exact onStack_binary .long .int .long name (fun a d => .ok (op.onLong a d))
      (fun a d => congrArg Except.ok (op.onLong_eq a d)) rfl

theorem onStack_bits (op : BitOp) (size : IntSize) :
    (binary size size size fun a b => some (Int.bitwise op.onBool a b)).OnStack (bits name op size) := by
  cases size with
  | int =>
    exact onStack_binary .int .int .int name (fun a b => .ok (op.onInt a b))
      (fun a b => congrArg Except.ok (op.onInt_eq a b)) rfl
  | long =>
    exact onStack_binary .long .long .long name (fun a b => .ok (op.onLong a b))
      (fun a b => congrArg Except.ok (op.onLong_eq a b)) rfl

theorem onStack_i2l : (unary .int .long id).OnStack (convert name .i2l) :=
  onStack_unary .int .long name Int32.toInt64 (fun x => by
    rw [← IntSize.long.reduce_number x.toInt64]
    exact congrArg _ (Int32.toInt_toInt64 x)) rfl

theorem onStack_l2i : (unary .long .int id).OnStack (convert name .l2i) :=
  onStack_unary .long .int name Int64.toInt32 (fun x => IntSize.int.eq_reduce (Int64.toInt_toInt32 x)) rfl

theorem onStack_i2b : (unary .int .int (·.bmod (2 ^ 8))).OnStack (convert name .i2b) := by
  refine onStack_unary .int .int name (fun x : Int32 => x.toInt8.toInt32) (fun x => ?_) rfl
  rw [← IntSize.int.reduce_number x.toInt8.toInt32]
  exact congrArg _ ((Int8.toInt_toInt32 _).trans (Int32.toInt_toInt8 x))

theorem onStack_i2s : (unary .int .int (·.bmod (2 ^ 16))).OnStack (convert name .i2s) := by
  refine onStack_unary .int .int name (fun x : Int32 => x.toInt16.toInt32) (fun x => ?_) rfl
  rw [← IntSize.int.reduce_number x.toInt16.toInt32]
  exact congrArg _ ((Int16.toInt_toInt32 _).trans (Int32.toInt_toInt16 x))

/-- A `char` has no sign. -/
theorem ofNat_toUInt16 (x : Int32) : Int32.ofNat x.toUInt32.toUInt16.toNat = Int32.ofInt (x.toInt % 2 ^ 16) := by
  have hlow : x.toInt % 2 ^ 32 = x.toBitVec.toNat := toInt_emod x.toBitVec
  have hchar : x.toInt % 2 ^ 16 = (x.toBitVec.toNat % 2 ^ 16 : Nat) := by omega
  rw [hchar, Int32.ofInt_eq_ofNat]
  rfl

theorem onStack_i2c : (unary .int .int (· % 2 ^ 16)).OnStack (convert name .i2c) :=
  onStack_unary .int .int name (fun x : Int32 => Int32.ofNat x.toUInt32.toUInt16.toNat) ofNat_toUInt16 rfl

/-- The handler of an opcode carries out what the opcode calculates. -/
theorem computes_execute (chain : Chain) (hooks : Hooks) {i : Instruction} {c : Calculation}
    (hi : i.opcode.calculation? = some c) : c.Computes (Step.execute chain hooks i) := by
  obtain ⟨opcode, operand⟩ := i
  cases opcode with
  | arith op t =>
    cases t with
    | int =>
      cases hi
      exact (onStack_arith_int _ op).computes rfl
    | long =>
      cases hi
      exact (onStack_arith_long _ op).computes rfl
    | float => cases hi
    | double => cases hi
  | neg t =>
    cases t with
    | int =>
      cases hi
      exact (onStack_neg_int _).computes rfl
    | long =>
      cases hi
      exact (onStack_neg_long _).computes rfl
    | float => cases hi
    | double => cases hi
  | shift op size =>
    cases hi
    exact (onStack_shift _ op size).computes rfl
  | bits op size =>
    cases hi
    exact (onStack_bits _ op size).computes rfl
  | convert conversion =>
    cases conversion with
    | i2l =>
      cases hi
      exact (onStack_i2l _).computes rfl
    | l2i =>
      cases hi
      exact (onStack_l2i _).computes rfl
    | i2b =>
      cases hi
      exact (onStack_i2b _).computes rfl
    | i2c =>
      cases hi
      exact (onStack_i2c _).computes rfl
    | i2s =>
      cases hi
      exact (onStack_i2s _).computes rfl
    | _ => cases hi
  | _ => cases hi

end Calculation

/-- An instruction on integers leaves what it calculates, reduced to the range of its type, and fails exactly where
there is no result; there is none for a division by zero alone, and what a division leaves otherwise is related to
its operands as `Divided` says. -/
theorem integers_calculated (chain : Chain) (hooks : Hooks) :
    (∀ (i : Instruction) (c : Calculation), i.opcode.calculation? = some c → c.Computes (Step.execute chain hooks i)) ∧
    (∀ (op : ArithOp) (a b : Int), op.onNumbers? a b = none ↔ (op = .div ∨ op = .rem) ∧ b = 0) ∧
    ∀ (size : IntSize) (x y : size.Word), size.number y ≠ 0 → ∃ q r,
      ArithOp.div.onNumbers? (size.number x) (size.number y) = some q ∧
      ArithOp.rem.onNumbers? (size.number x) (size.number y) = some r ∧
      Divided size.bits (size.number x) (size.number y) (q.bmod (2 ^ size.bits)) (r.bmod (2 ^ size.bits)) := by
  refine ⟨fun i c hi => Calculation.computes_execute chain hooks hi, fun op a b => ?_, fun size x y hy => ?_⟩
  · cases op <;> simp [ArithOp.onNumbers?]
  · exact ⟨_, _, if_neg hy, if_neg hy, IntSize.divided x y hy⟩

/-- The least `int` divided by -1 leaves itself; there is no remainder. -/
theorem integers_calculated_least :
    Opcode.calculation? (.arith .div .int) = some (.binary .int .int .int ArithOp.div.onNumbers?) ∧
    IntSize.int.number (-1 : Int32) ≠ 0 ∧ Divided 32 Int32.minValue.toInt (-1) Int32.minValue.toInt 0 ∧
    ∀ (a : Activation) (w : World) (s : State) (rest : List Value),
      a.stack.values = .int (-1) :: .int Int32.minValue :: rest → rest.length < a.stack.limit →
      ∃ stack, Step.execute .standard .idle ⟨.arith .div .int, .none⟩ a w s = .ok (.advance, { a with stack }) s ∧
        stack.values = .int Int32.minValue :: rest := by
  obtain ⟨hcomputes, -, hdivided⟩ := integers_calculated .standard .idle
  have hzero : IntSize.int.number (-1 : Int32) ≠ 0 := by decide
  obtain ⟨q, r, hq, hr, hlaw⟩ := hdivided .int Int32.minValue (-1 : Int32) hzero
  cases hq
  cases hr
  refine ⟨rfl, hzero, hlaw, fun a w s rest hvalues hroom => ?_⟩
  have htakes :
      Calculation.Takes (.binary .int .int .int ArithOp.div.onNumbers?) a.stack.values (some 2147483648) rest := by
    rw [hvalues]
    exact @Calculation.Takes.binary .int .int .int _ rest Int32.minValue (-1 : Int32)
  obtain ⟨stack, hexecute, z, hz, hstack, -⟩ := hcomputes ⟨.arith .div .int, .none⟩ _ rfl a w s _ rest htakes hroom
  have hleast : z = Int32.minValue := IntSize.int.eq_reduce hz
  exact ⟨stack, hexecute, by rw [hstack, hleast]; rfl⟩

end Jvm
