import Jvm.Proofs.Flow.Frame

/-!
# Transfer follows the table of effects

`transfer_follows`: what the analysis does to a stack of frames is the effect of the instruction in the
table, and the frame it pushes is one of the value that the table says is made there. `exists_transfer`:
where the table has an effect on the stack, the analysis does not fail.
-/

namespace Jvm

/-- `f` is the frame of the value `p` that the instruction at `n` makes. -/
structure Frame.Of (n : Nat) (p : Pushed) (f : Frame) : Prop where
  width : f.width = p.width
  source : f.source? = some n
  constant : f.constant? = p.constant?

namespace Instruction

/-- An instruction makes a constant exactly if it loads one. -/
theorem constant_of_pushed {i : Instruction} {e : StackEffect} {p : Pushed}
    (h : i.stackEffect? = some e) (hp : e.pushed? = some p) : p.constant? = i.loaded? := by
  obtain ⟨opcode, operand⟩ := i
  have hmap : ∀ o : Option Constant,
      (o.map fun c => StackEffect.replace 0 (some ⟨c.width, some c⟩)) = some e → p.constant? = o := by
    rintro (_ | c) ho
    · cases ho
    · cases ho; cases hp; rfl
  cases opcode
  case iconst | lconst | fconst | dconst | bipush | sipush | ldc => exact hmap _ h
  all_goals
    simp only [stackEffect?, callEffect] at h
    repeat' split at h
  all_goals cases h
  all_goals cases hp
  all_goals rfl

end Instruction

namespace Flow

variable {owner : String} {n : Nat} {i : Instruction} {stack after : List Frame} {e : FlowEntry}

/-- The entry and the stack afterwards are those of the effect. -/
def Follows (n : Nat) (effect? : Option StackEffect) (stack : List Frame) (e : FlowEntry)
    (after : List Frame) : Prop :=
  ∃ effect make, effect? = some effect ∧ effect.run? make stack = some (e.consumed, after) ∧
    ∀ p, effect.pushed? = some p → (make p).Of n p

theorem follows_popN {count : Nat} {consumed rest : List Frame} {recorded produced : Option Frame}
    {pushed : Option Pushed} (h : popN count stack = .ok (consumed, rest))
    (hp : Option.Rel (Frame.Of n) pushed produced) :
    Follows n (some (.replace count pushed)) stack ⟨consumed, recorded⟩ (produced.toList ++ rest) := by
  rw [popN] at h
  split at h
  · cases h
  rename_i hlen
  cases h
  cases hp with
  | none =>
    exact ⟨_, fun _ => default, rfl, by simp [StackEffect.run?, hlen], by simp [StackEffect.pushed?]⟩
  | @some p f hf =>
    refine ⟨_, fun _ => f, rfl, by simp [StackEffect.run?, hlen], fun q hq => ?_⟩
    cases hq
    exact hf

theorem follows_replace {count : Nat} {produced : Option Frame} {pushed : Option Pushed}
    (h : replace count produced stack = .ok (e, after))
    (hp : Option.Rel (Frame.Of n) pushed produced) :
    Follows n (some (.replace count pushed)) stack e after := by
  rw [replace] at h
  split at h
  · cases h
  · rename_i hpop
    cases h
    exact follows_popN hpop hp

theorem located_ok {α : Type} {opcode : Opcode} {r : Except Fault α} {a : α}
    (h : located owner n opcode r = .ok a) : r = .ok a := by
  cases r with
  | error => cases h
  | ok => cases h; rfl

theorem follows_rearrange {effect : StackEffect} {opcode : Opcode} {moved : Except Fault (List Frame)}
    (h : rearrange (located owner n opcode moved) = .ok (e, after))
    (heffect : ∀ s, moved = .ok s → effect.run? (fun _ => default) stack = some ([], s))
    (hp : effect.pushed? = none) : Follows n (some effect) stack e after := by
  cases moved with
  | error => cases h
  | ok s =>
    cases h
    exact ⟨effect, _, rfl, heffect _ rfl, by simp [hp]⟩

theorem receiver_words (kind : InvokeKind) :
    (if kind = .static then 0 else 1) = (!decide (kind = .static)).toNat := by
  by_cases h : kind = .static <;> simp [h]

/-! ### The analysis follows the table, by families of instructions -/

section Families

variable {operand : Operand} {opcode : Opcode} {kind : InvokeKind}

theorem follows_ldc (h : transfer owner n ⟨.ldc, operand⟩ stack = .ok (e, after)) :
    Follows n (Instruction.stackEffect? ⟨.ldc, operand⟩) stack e after := by
  simp only [transfer] at h
  split at h
  · rename_i c hc
    have heffect : Instruction.stackEffect? ⟨.ldc, operand⟩
        = some (.replace 0 (some ⟨c.width, some c⟩)) := by
      simp only [Instruction.stackEffect?, Instruction.loaded?, hc, Option.map_some]
    rw [heffect]
    exact follows_replace h (.some ⟨rfl, rfl, rfl⟩)
  · cases h

theorem follows_anewArray (h : transfer owner n ⟨.anewArray, operand⟩ stack = .ok (e, after)) :
    Follows n (Instruction.stackEffect? ⟨.anewArray, operand⟩) stack e after := by
  simp only [transfer] at h
  split at h
  · rename_i name
    split at h
    · cases h
    · rename_i t ht
      have heffect : Instruction.stackEffect? ⟨.anewArray, .classRef name⟩
          = some (.replace 1 (some ⟨.single, none⟩)) := by
        simp [Instruction.stackEffect?, ht, Except.isOk, Except.toBool]
      rw [heffect]
      exact follows_replace h (.some ⟨rfl, rfl, rfl⟩)
  · cases h

/-- The instructions that drop words. -/
theorem follows_drop (hop : opcode = .pop ∨ opcode = .pop2)
    (h : transfer owner n ⟨opcode, operand⟩ stack = .ok (e, after)) :
    Follows n (Instruction.stackEffect? ⟨opcode, operand⟩) stack e after := by
  rcases hop with rfl | rfl
  all_goals
    simp only [transfer, reduceCtorEq, if_false, if_true] at h
    split at h
    · cases h
    · rename_i taken rest hloc
      cases h
      refine ⟨.drop _, fun _ => default, rfl, ?_, by simp [StackEffect.pushed?]⟩
      rw [StackEffect.run?, Words.takeWords_name "" (located_ok hloc)]

/-- The instructions that load a field. -/
theorem follows_getField (hop : opcode = .getStatic ∨ opcode = .getField)
    (h : transfer owner n ⟨opcode, operand⟩ stack = .ok (e, after)) :
    Follows n (Instruction.stackEffect? ⟨opcode, operand⟩) stack e after := by
  rcases hop with rfl | rfl
  all_goals
    simp only [transfer, reduceCtorEq, if_false, if_true] at h
    split at h
    · split at h
      · cases h
      · rename_i consumed rest hpop
        split at h
        · cases h
        · rename_i t ht
          cases h
          simp only [Instruction.stackEffect?, ht, reduceCtorEq, if_false, if_true]
          exact follows_popN hpop (.some ⟨rfl, rfl, rfl⟩)
    · cases h

theorem follows_invoke (h : transfer owner n ⟨.invoke kind, operand⟩ stack = .ok (e, after)) :
    Follows n (Instruction.stackEffect? ⟨.invoke kind, operand⟩) stack e after := by
  simp only [transfer] at h
  split at h
  · rename_i m
    rw [call] at h
    split at h
    · cases h
    · rename_i d hd
      split at h
      · cases h
      · rename_i consumed rest hpop
        cases h
        simp only [Instruction.stackEffect?, Instruction.callEffect, hd, receiver_words]
        cases d.returns.isVoid with
        | true => exact follows_popN hpop .none
        | false => exact follows_popN hpop (.some ⟨rfl, rfl, rfl⟩)
  · cases h

theorem follows_invokeDynamic (h : transfer owner n ⟨.invokeDynamic, operand⟩ stack = .ok (e, after)) :
    Follows n (Instruction.stackEffect? ⟨.invokeDynamic, operand⟩) stack e after := by
  simp only [transfer] at h
  split at h
  · split at h
    · cases h
    · rename_i d hd
      simp only [Instruction.stackEffect?, Instruction.callEffect, hd]
      refine follows_replace h ?_
      cases d.returns.isVoid with
      | true => exact .none
      | false => exact .some ⟨rfl, rfl, rfl⟩
  · cases h

theorem follows_checkCast (h : transfer owner n ⟨.checkCast, operand⟩ stack = .ok (e, after)) :
    Follows n (Instruction.stackEffect? ⟨.checkCast, operand⟩) stack e after := by
  simp only [transfer] at h
  split at h
  · cases h
  · cases h
    exact ⟨.recast, fun _ => default, rfl, rfl, by simp [StackEffect.pushed?]⟩

end Families

/-- The analysis changes a stack as the table says. -/
theorem transfer_follows (h : transfer owner n i stack = .ok (e, after)) :
    Follows n i.stackEffect? stack e after := by
  obtain ⟨opcode, operand⟩ := i
  cases opcode
  case ldc => exact follows_ldc h
  case anewArray => exact follows_anewArray h
  case pop => exact follows_drop (.inl rfl) h
  case pop2 => exact follows_drop (.inr rfl) h
  case getStatic => exact follows_getField (.inl rfl) h
  case getField => exact follows_getField (.inr rfl) h
  case invoke => exact follows_invoke h
  case invokeDynamic => exact follows_invokeDynamic h
  case checkCast => exact follows_checkCast h
  all_goals simp only [transfer] at h
  case nop | iinc | goto | voidReturn | ret | store | ifInt | ifNull | tableSwitch | lookupSwitch
      | valueReturn | athrow | monitor | putStatic | ifIntCmp | ifRefCmp | putField | arrayStore =>
    exact follows_replace h .none
  case aconstNull | jsr | arrayLoad | arrayLength | arith | shift | bits | lcmp | fcmp | dcmp | neg
      | convert | instanceOf =>
    exact follows_replace h (.some ⟨rfl, rfl, rfl⟩)
  case lconst | fconst | dconst => exact follows_replace h (.some ⟨rfl, rfl, rfl⟩)
  case iconst m =>
    have hm : ∀ m : Fin 7, Int32.ofNat m - 1 = Int32.ofInt (m.val - 1) := by decide
    exact follows_replace h (.some ⟨rfl, rfl, by rw [hm]; rfl⟩)
  case bipush | sipush | load | newArray | multiNewArray | new =>
    split at h
    · exact follows_replace h (.some ⟨rfl, rfl, rfl⟩)
    · cases h
  case dup wide under =>
    refine follows_rearrange h (fun s hs => ?_) rfl
    rw [StackEffect.run?, Words.dupWords_name "" hs]
  case swap =>
    refine follows_rearrange h (fun s hs => ?_) rfl
    rw [StackEffect.run?, hs]

/-- A call makes a frame of its own, which names what it takes. -/
theorem transfer_call {kind : InvokeKind} {m : MemberRef}
    (h : transfer owner n ⟨.invoke kind, .method m⟩ stack = .ok (e, after)) : ∃ d,
      MethodDescriptor.parse m.descriptor = .ok d ∧
      e.consumed.length = d.parameters.length + (if kind = .static then 0 else 1) ∧
      e.produced = some (.call m.owner m.name m.descriptor e.consumed n (widthOf d.returns)) ∧
      ∀ f ∈ after, f ∈ stack ∨ e.produced = some f := by
  simp only [transfer, call] at h
  split at h
  · cases h
  rename_i d hd
  split at h
  · cases h
  rename_i taken rest hpop
  cases h
  rw [popN] at hpop
  split at hpop
  · cases hpop
  rename_i hlen
  cases hpop
  refine ⟨d, hd, ?_, rfl, fun f hf => ?_⟩
  · rw [List.length_reverse, List.length_take_of_le (by omega)]
    by_cases hk : kind = .static <;> simp [hk]
  · split at hf
    · exact .inl (List.mem_of_mem_drop hf)
    · rcases List.mem_cons.1 hf with rfl | hf
      · exact .inr rfl
      · exact .inl (List.mem_of_mem_drop hf)

/-! ### The other way -/

theorem exists_popN {count : Nat} (h : count ≤ stack.length) : ∃ r, popN count stack = .ok r := by
  rw [popN, if_neg (Nat.not_lt.2 h)]
  exact ⟨_, rfl⟩

theorem exists_replace {count : Nat} {produced : Option Frame} (h : count ≤ stack.length) :
    ∃ r, replace count produced stack = .ok r := by
  obtain ⟨r, hr⟩ := exists_popN h
  rw [replace, hr]
  exact ⟨_, rfl⟩

theorem le_of_run? {count : Nat} {pushed : Option Pushed} {make : Pushed → Frame} {r : List Frame × List Frame}
    (h : (StackEffect.replace count pushed).run? make stack = some r) : count ≤ stack.length := by
  rw [StackEffect.run?] at h
  split at h
  · cases h
  · omega

theorem exists_rearrange {opcode : Opcode} {moved : Except Fault (List Frame)} {s : List Frame}
    (h : moved = .ok s) : ∃ r, rearrange (located owner n opcode moved) = .ok r := by
  rw [h]
  exact ⟨_, rfl⟩

section Families

variable {operand : Operand} {opcode : Opcode} {kind : InvokeKind} {effect : StackEffect}
  {make : Pushed → Frame} {r : List Frame × List Frame}

theorem exists_transfer_anewArray (h : Instruction.stackEffect? ⟨.anewArray, operand⟩ = some effect)
    (hrun : effect.run? make stack = some r) : ∃ r, transfer owner n ⟨.anewArray, operand⟩ stack = .ok r := by
  cases operand
  case classRef name =>
    simp only [Instruction.stackEffect?] at h
    simp only [transfer]
    cases hname : FieldType.ofClassOperand name with
    | error => simp [hname, Except.isOk, Except.toBool] at h
    | ok t =>
      simp only [hname, Except.isOk, Except.toBool, if_true, Option.some.injEq] at h
      subst h
      exact exists_replace (le_of_run? hrun)
  all_goals cases h

theorem exists_transfer_drop (hop : opcode = .pop ∨ opcode = .pop2)
    (h : Instruction.stackEffect? ⟨opcode, operand⟩ = some effect)
    (hrun : effect.run? make stack = some r) : ∃ r, transfer owner n ⟨opcode, operand⟩ stack = .ok r := by
  rcases hop with rfl | rfl
  all_goals
    cases h
    simp only [StackEffect.run?] at hrun
    split at hrun
    · rename_i htaken
      simp only [transfer, reduceCtorEq, if_false, if_true]
      rw [Words.takeWords_name _ htaken]
      exact ⟨_, rfl⟩
    · cases hrun

theorem exists_transfer_getField (hop : opcode = .getStatic ∨ opcode = .getField)
    (h : Instruction.stackEffect? ⟨opcode, operand⟩ = some effect)
    (hrun : effect.run? make stack = some r) : ∃ r, transfer owner n ⟨opcode, operand⟩ stack = .ok r := by
  cases operand
  case field m =>
    cases hm : FieldType.parse m.descriptor with
    | error => rcases hop with rfl | rfl <;> simp [Instruction.stackEffect?, hm] at h
    | ok t =>
      rcases hop with rfl | rfl
      all_goals
        simp only [Instruction.stackEffect?, hm, reduceCtorEq, if_false, if_true, Option.some.injEq] at h
        subst h
        obtain ⟨p, hp⟩ := exists_popN (le_of_run? hrun)
        simp only [transfer, reduceCtorEq, if_false, if_true, hm, hp]
        exact ⟨_, rfl⟩
  all_goals rcases hop with rfl | rfl <;> cases h

theorem exists_transfer_invoke (h : Instruction.stackEffect? ⟨.invoke kind, operand⟩ = some effect)
    (hrun : effect.run? make stack = some r) :
    ∃ r, transfer owner n ⟨.invoke kind, operand⟩ stack = .ok r := by
  cases operand
  case method m =>
    obtain ⟨d, hd, rfl⟩ := Instruction.exists_of_callEffect h
    have hle := le_of_run? hrun
    rw [receiver_words] at hle
    obtain ⟨p, hp⟩ := exists_popN hle
    simp only [transfer, call, hd, hp]
    exact ⟨_, rfl⟩
  all_goals cases h

theorem exists_transfer_invokeDynamic (h : Instruction.stackEffect? ⟨.invokeDynamic, operand⟩ = some effect)
    (hrun : effect.run? make stack = some r) :
    ∃ r, transfer owner n ⟨.invokeDynamic, operand⟩ stack = .ok r := by
  cases operand
  case dynamic name descriptor =>
    obtain ⟨d, hd, rfl⟩ := Instruction.exists_of_callEffect h
    simp only [transfer, hd]
    exact exists_replace (le_of_run? hrun)
  all_goals cases h

end Families

/-- Where the table has an effect on a stack, the analysis succeeds. -/
theorem exists_transfer (owner : String) (n : Nat) {effect : StackEffect} {make : Pushed → Frame}
    {r : List Frame × List Frame} (h : i.stackEffect? = some effect) (hrun : effect.run? make stack = some r) :
    ∃ r, transfer owner n i stack = .ok r := by
  obtain ⟨opcode, operand⟩ := i
  cases opcode
  case anewArray => exact exists_transfer_anewArray h hrun
  case pop => exact exists_transfer_drop (.inl rfl) h hrun
  case pop2 => exact exists_transfer_drop (.inr rfl) h hrun
  case getStatic => exact exists_transfer_getField (.inl rfl) h hrun
  case getField => exact exists_transfer_getField (.inr rfl) h hrun
  case invoke => exact exists_transfer_invoke h hrun
  case invokeDynamic => exact exists_transfer_invokeDynamic h hrun
  all_goals simp only [transfer]
  case nop | iinc | goto | voidReturn | ret | store | ifInt | ifNull | tableSwitch | lookupSwitch
      | valueReturn | athrow | monitor | putStatic | ifIntCmp | ifRefCmp | putField | arrayStore
      | aconstNull | jsr | arrayLoad | arrayLength | arith | shift | bits | lcmp | fcmp | dcmp | neg
      | convert | instanceOf | iconst | lconst | fconst | dconst =>
    cases h
    exact exists_replace (le_of_run? hrun)
  case bipush | sipush | load | newArray | multiNewArray | new =>
    cases operand <;> cases h
    exact exists_replace (le_of_run? hrun)
  case ldc =>
    obtain ⟨c, hc, rfl⟩ := Option.map_eq_some_iff.1 h
    rw [show Instruction.constant? ⟨.ldc, operand⟩ = some c from hc]
    exact exists_replace (le_of_run? hrun)
  case dup wide under =>
    cases h
    simp only [StackEffect.run?] at hrun
    split at hrun
    · rename_i hmoved
      exact exists_rearrange (Words.dupWords_name _ hmoved)
    · cases hrun
  case swap =>
    cases h
    simp only [StackEffect.run?] at hrun
    split at hrun
    · rename_i hmoved
      exact exists_rearrange hmoved
    · cases hrun
  case checkCast =>
    cases h
    cases stack with
    | nil => cases hrun
    | cons f rest => exact ⟨_, rfl⟩

end Flow

end Jvm
