import Jvm.Proofs.Machine.InstructionEffects

/-!
# The machine obeys the table of effects

`Step.obeys_execute` is the one statement about instructions that runs build on: where the effect of the
table can be carried out on the values of the stack, an instruction that succeeds has carried it out, and
control goes where the analysis thinks it may; one that fails has not found the stack in a wrong shape.
-/

namespace Jvm

open Exec (Any)

/-- Control goes where the analysis thinks it may. -/
def Instruction.Goes (i : Instruction) : Next → Prop
  | .advance => i.fallsThrough = true ∧ i.opcode ≠ .jsr
  | .jump target => target ∈ i.targets
  | .finish _ => True

/-- The instruction loads a field. -/
def Instruction.isFieldLoad (i : Instruction) : Bool := i.opcode = .getStatic ∨ i.opcode = .getField

/-- The value is one that the table says is made. -/
def Pushed.Fits (p : Pushed) (h : Heap) (v : Value) : Prop :=
  v.width = p.width ∧ ∀ c, p.constant? = some c → h.IsConstant v c

namespace Step

variable {α : Type} {chain : Chain} {hooks : Hooks} {i : Instruction} {effect : StackEffect} {n : Nat}
  {pushed : Option Pushed} {P : α → Prop}

/-- The action has the effect on stacks on which it can be carried out, and its result satisfies `P`. Of a
loaded field nothing is said but that it is pushed. -/
def Obeys (hooks : Hooks) (i : Instruction) (effect : StackEffect) (P : α → Prop) (m : Step α) : Prop :=
  ∀ a w s, s.heap.Sound → ∀ make taken after, effect.run? make a.stack.values = some (taken, after) →
    match m a w s with
    | .ok (x, a') s' => P x ∧ s'.heap.Sound ∧
        ∃ v, effect.run? (fun _ => v) a.stack.values = some (taken, a'.stack.values) ∧
          (i.isFieldLoad = false → ∀ p, effect.pushed? = some p → p.Fits s'.heap v)
    | .error e s' => e.isShape = true → hooks.Raises w e s'

theorem obeys_of_does {m : Step α}
    (h : Does hooks n (fun heap x out => P x ∧ ∃ v, out = (pushed.map fun _ => v).toList ∧
      (i.isFieldLoad = false → ∀ p, pushed = some p → p.Fits heap v)) m) :
    Obeys hooks i (.replace n pushed) P m := by
  intro a w s hs make taken after hrun
  simp only [StackEffect.run?] at hrun ⊢
  split at hrun
  · cases hrun
  rename_i hn
  obtain ⟨rfl, -⟩ := Prod.mk.inj (Option.some.inj hrun)
  have h1 := h a w s hs (by omega)
  cases hres : m a w s with
  | error e s' =>
    rw [hres] at h1
    exact h1
  | ok p s' =>
    rw [hres] at h1
    obtain ⟨hs', out, hout, hx, v, rfl, hv⟩ := h1
    exact ⟨hx, hs', v, by rw [if_neg hn, hout], hv⟩

theorem exists_of_makes {h : Heap} {out : List Value} (hout : Makes pushed h out) :
    ∃ v, out = (pushed.map fun _ => v).toList ∧ ∀ p, pushed = some p → p.Fits h v := by
  cases pushed with
  | none => exact ⟨.null, hout, nofun⟩
  | some p =>
    obtain ⟨v, rfl, hw, hc⟩ := hout
    exact ⟨v, rfl, fun q hq => by cases hq; exact ⟨hw, hc⟩⟩

theorem obeys_of_makes {m : Step α}
    (h : Does hooks n (fun heap x out => P x ∧ Makes pushed heap out) m) :
    Obeys hooks i (.replace n pushed) P m :=
  obeys_of_does <| h.mono fun heap x out ⟨hx, hout⟩ => by
    obtain ⟨v, hv, hfits⟩ := exists_of_makes hout
    exact ⟨hx, v, hv, fun _ => hfits⟩

/-! ### Entries that are dropped or moved -/

/-- A stack operation that goes well wherever the effect can be carried out, but for the limit. -/
theorem obeys_of_moved {m : StackM α} (hpushed : effect.pushed? = none)
    (h : ∀ (s : OperandStack) make taken after, effect.run? make s.values = some (taken, after) →
      match m s with
      | .ok _ s' => effect.run? make s.values = some (taken, s'.values)
      | .error f _ => f.isShape = false) :
    Obeys hooks i effect Any (liftM m) := by
  intro a w s hs make taken after hrun
  have hnull : effect.run? (fun _ => .null) a.stack.values = some (taken, after) := by
    rw [← hrun]
    exact StackEffect.run?_congr (fun p hp => by rw [hpushed] at hp; cases hp) _
  have h1 := h a.stack (fun _ => .null) taken after hnull
  rw [liftStack_apply]
  cases hres : m a.stack with
  | ok x stack =>
    rw [hres] at h1
    exact ⟨trivial, hs, .null, h1, fun _ p hp => by rw [hpushed] at hp; cases hp⟩
  | error f stack =>
    rw [hres] at h1
    intro hshape
    exact absurd hshape (by rw [Stop.isShape, h1]; decide)

theorem obeys_popWords (name : String) (words : Nat) :
    Obeys hooks i (.drop words) Any (liftM (OperandStack.popWords name words)) := by
  refine obeys_of_moved rfl fun s make taken after hrun => ?_
  simp only [StackEffect.run?] at hrun ⊢
  cases ht : Words.takeWords "" words s.values with
  | error => simp only [ht] at hrun; cases hrun
  | ok p =>
    obtain ⟨dropped, rest⟩ := p
    simp only [ht] at hrun ⊢
    obtain ⟨rfl, rfl⟩ := Prod.mk.inj (Option.some.inj hrun)
    have hname := Words.takeWords_name name ht
    unfold OperandStack.popWords
    split
    · rename_i stack heq
      split at heq
      · cases heq
      · rename_i hok
        cases heq
        rw [hname] at hok
        cases hok
        rfl
    · rename_i heq
      split at heq
      · rename_i herror
        rw [hname] at herror
        cases herror
      · cases heq

theorem obeys_dup (name : String) (top under : Nat) :
    Obeys hooks i (.copy top under) Any (liftM (OperandStack.dup name top under)) := by
  refine obeys_of_moved rfl fun s make taken after hrun => ?_
  simp only [StackEffect.run?] at hrun ⊢
  cases hd : Words.dupWords "" top under s.values with
  | error => simp only [hd] at hrun; cases hrun
  | ok moved =>
    simp only [hd] at hrun ⊢
    obtain ⟨rfl, rfl⟩ := Prod.mk.inj (Option.some.inj hrun)
    have hname := Words.dupWords_name name hd
    have hdup : ∃ s', OperandStack.dupUnchecked name top under s = .ok () s' ∧ s'.values = moved := by
      unfold OperandStack.dupUnchecked
      split
      · rename_i hok
        rw [hname] at hok
        cases hok
        exact ⟨_, rfl, rfl⟩
      · rename_i herror
        rw [Words.dupWords, herror] at hname
        cases hname
      · rename_i herror _
        rw [hname] at herror
        cases herror
    obtain ⟨s', hs', rfl⟩ := hdup
    have happly : OperandStack.dup name top under s = OperandStack.checkLimit s' := by
      rw [OperandStack.dup, OperandStack.bind_apply, hs']
    rw [happly, OperandStack.checkLimit]
    by_cases hlimit : s'.limit < s'.depth
    · rw [if_pos hlimit]
      rfl
    · rw [if_neg hlimit]

theorem obeys_swap : Obeys hooks i .exchange Any (liftM OperandStack.swap) := by
  refine obeys_of_moved rfl fun s make taken after hrun => ?_
  simp only [StackEffect.run?] at hrun ⊢
  cases hd : Words.swap s.values with
  | error => simp only [hd] at hrun; cases hrun
  | ok moved =>
    simp only [hd] at hrun ⊢
    obtain ⟨rfl, rfl⟩ := Prod.mk.inj (Option.some.inj hrun)
    have hswap : ∃ s', OperandStack.swap s = .ok () s' ∧ s'.values = moved := by
      unfold OperandStack.swap
      split
      · rename_i herror
        rw [hd] at herror
        cases herror
      · rename_i hok
        rw [hd] at hok
        cases hok
        exact ⟨_, rfl, rfl⟩
    obtain ⟨s', hs', rfl⟩ := hswap
    rw [hs']

theorem obeys_next {β : Type} {Q : β → Prop} {m : Step α} {f : α → Step β} (hm : Takes hooks 0 Any m)
    (hf : ∀ x, Obeys hooks i effect Q (f x)) : Obeys hooks i effect Q (m >>= f) := by
  intro a w s hs make taken after hrun
  have h1 := hm a w s hs (Nat.zero_le _)
  rw [bind_apply]
  cases hres : m a w s with
  | error e s' =>
    rw [hres] at h1
    exact h1
  | ok p s' =>
    obtain ⟨x, a'⟩ := p
    rw [hres] at h1
    obtain ⟨hs', out, ha', rfl, -⟩ := h1
    rw [List.nil_append, List.drop_zero] at ha'
    rw [← ha'] at hrun ⊢
    exact hf x a' w s' hs' make taken after hrun

/-- An entry that is looked at stays where it is. -/
theorem obeys_peek {f : Value → Step α} (hf : ∀ v, Takes hooks 0 P (f v)) :
    Obeys hooks i .recast P (liftM OperandStack.peek >>= f) := by
  intro a w s hs make taken after hrun
  cases hvalues : a.stack.values with
  | nil => rw [hvalues] at hrun; cases hrun
  | cons v rest =>
    rw [hvalues] at hrun
    obtain ⟨rfl, rfl⟩ := Prod.mk.inj (Option.some.inj hrun)
    have hpeek : (liftM OperandStack.peek : Step Value) a w s = .ok (v, a) s := by
      rw [liftStack_apply, OperandStack.peek, hvalues]
    have h1 := hf v a w s hs (Nat.zero_le _)
    rw [bind_apply, hpeek]
    dsimp only
    cases hres : f v a w s with
    | error e s' =>
      rw [hres] at h1
      exact h1
    | ok p s' =>
      rw [hres] at h1
      obtain ⟨hs', out, ha', rfl, hx⟩ := h1
      exact ⟨hx, hs', .null, by rw [ha', hvalues]; rfl, fun _ p hp => nomatch hp⟩

theorem obeys_checkCast {operand : Operand} :
    Obeys hooks i .recast Any (executeSimple chain hooks ⟨.checkCast, operand⟩) := by
  refine obeys_next takes_className fun target => obeys_peek fun v => ?_
  refine (Does.liftExcept (v.aloof_asReference _).plain).next fun v => ?_
  split
  · exact .pure () fun _ => ⟨rfl, trivial⟩
  refine (Does.lift .read Exec.Aloof.read.blames).next fun w => ?_
  have haloof := Exec.Aloof.readHeap fun h => chain.aloof_instanceOf h w.program v target
  refine (Does.lift (.look _) haloof.blames).next fun b => ?_
  split
  · exact .pure () fun _ => ⟨rfl, trivial⟩
  · exact (Does.lift (.className v) (Exec.Aloof.className v).blames).next fun name => .fail rfl

theorem obeys_getField {m : MemberRef} {w : Width} :
    Obeys hooks ⟨.getField, .field m⟩ (.replace 1 (some ⟨w, none⟩)) Any
      (executeSimple chain hooks ⟨.getField, .field m⟩) := by
  refine obeys_of_does ?_
  refine takes_member.bind fun m _ => (Does.liftExcept (aloof_fieldType _).plain).next fun t => ?_
  refine Does.next (n := 0) (.takes (OperandStack.takes_popReference _)) fun target => ?_
  refine (Does.lift (.narrow _ target) (Exec.Aloof.narrow _ target).blames).next fun fields => ?_
  exact (Does.liftStack (OperandStack.does_push _)).mono fun _ _ _ hout => ⟨trivial, _, hout, nofun⟩

theorem obeys_getStatic (hh : hooks.Refines hooks) {m : MemberRef} {w : Width} :
    Obeys hooks ⟨.getStatic, .field m⟩ (.replace 0 (some ⟨w, none⟩)) Any
      (executeSimple chain hooks ⟨.getStatic, .field m⟩) := by
  refine obeys_of_does ?_
  refine takes_member.bind fun m _ => ?_
  refine (Does.lift (refines_getStatic hh m) (blames_getStatic m)).next fun v => ?_
  exact (Does.liftStack (OperandStack.does_push v)).mono fun _ _ _ hout => ⟨trivial, _, hout, nofun⟩

/-! ### All instructions -/

/-- An instruction that is not one of those above takes entries and pushes a value or none. -/
theorem exists_replace (h : i.stackEffect? = some effect)
    (hmoves : i.opcode ≠ .pop ∧ i.opcode ≠ .pop2 ∧ i.opcode ≠ .swap ∧ i.opcode ≠ .checkCast ∧
      ∀ wide under, i.opcode ≠ .dup wide under) : ∃ n pushed, effect = .replace n pushed := by
  obtain ⟨opcode, operand⟩ := i
  obtain ⟨hpop, hpop2, hswap, hcast, hdup⟩ := hmoves
  cases opcode
  case pop | pop2 | swap | checkCast | dup => simp at hpop hpop2 hswap hcast hdup
  case anewArray | getField | getStatic | invoke | invokeDynamic =>
    cases operand
    all_goals
      simp only [Instruction.stackEffect?, Instruction.callEffect] at h
      repeat' split at h
      all_goals cases h
      all_goals exact ⟨_, _, rfl⟩
  case ldc =>
    cases hc : Instruction.constant? ⟨.ldc, operand⟩ with
    | none => simp [Instruction.stackEffect?, Instruction.loaded?, hc] at h
    | some c =>
      simp only [Instruction.stackEffect?, Instruction.loaded?, hc, Option.map_some, Option.some.injEq] at h
      exact ⟨_, _, h.symm⟩
  case bipush | sipush | load | newArray | multiNewArray | new =>
    cases operand <;> cases h
    exact ⟨_, _, rfl⟩
  all_goals
    cases h
    exact ⟨_, _, rfl⟩

theorem obeys_executeSimple (hh : hooks.Refines hooks) (h : i.stackEffect? = some effect) :
    Obeys hooks i effect Any (executeSimple chain hooks i) := by
  obtain ⟨opcode, operand⟩ := i
  cases opcode
  case pop | pop2 => cases h; exact obeys_popWords _ _
  case dup => cases h; exact obeys_dup _ _ _
  case swap => cases h; exact obeys_swap
  case checkCast => cases h; exact obeys_checkCast
  case getField =>
    cases operand
    case field m =>
      dsimp only [Instruction.stackEffect?] at h
      split at h <;> cases h
      exact obeys_getField
    all_goals cases h
  case getStatic =>
    cases operand
    case field m =>
      dsimp only [Instruction.stackEffect?] at h
      split at h <;> cases h
      exact obeys_getStatic hh
    all_goals cases h
  all_goals
    obtain ⟨n, pushed, rfl⟩ := exists_replace h ⟨nofun, nofun, nofun, nofun, nofun⟩
    exact obeys_of_makes ((does_executeSimple hh h nofun nofun).mono fun _ _ _ hout => ⟨trivial, hout⟩)

theorem goes_executeSimple {a a' : Activation} {w : World} {s s' : State}
    (h : executeSimple chain hooks i a w s = .ok ((), a') s') : i.Goes .advance := by
  obtain ⟨opcode, operand⟩ := i
  cases opcode
  case goto | tableSwitch | lookupSwitch | valueReturn | voidReturn | ret | jsr => cases h
  case athrow =>
    obtain ⟨v, a₁, s₁, -, h1⟩ := Step.bind_ok h
    obtain ⟨c, a₂, s₂, -, h2⟩ := Step.bind_ok h1
    cases h2
  all_goals exact ⟨rfl, nofun⟩

theorem obeys_advance {m : Step Unit} (hm : Obeys hooks i effect Any m)
    (hgoes : ∀ a w s a' s', m a w s = .ok ((), a') s' → i.Goes .advance) :
    Obeys hooks i effect i.Goes (do m; return .advance) := by
  intro a w s hs make taken after hrun
  have h1 := hm a w s hs make taken after hrun
  rw [bind_apply]
  cases hres : m a w s with
  | error e s' =>
    rw [hres] at h1
    exact h1
  | ok p s' =>
    rw [hres] at h1
    exact ⟨hgoes a w s p.2 s' hres, h1.2⟩

theorem obeys_of_takes {m : Step α} (h : Takes hooks n P m) : Obeys hooks i (.replace n none) P m :=
  obeys_of_makes (h.mono fun _ _ _ hout => ⟨hout.2, hout.1⟩)

theorem takes_branchIf (hi : i.Goes .advance) (taken : Bool) :
    Takes hooks 0 i.Goes (branchIf taken i) := by
  unfold branchIf
  split
  · exact takes_jumpTarget.bind fun target ht => .pure _ fun _ => ⟨rfl, ht⟩
  · exact .pure _ fun _ => ⟨rfl, hi⟩

theorem tableTarget_mem (low high key : Int32) (fallback : Nat) (targets : List Nat) :
    tableTarget low high fallback targets key ∈ fallback :: targets := by
  unfold tableTarget
  split
  · rw [List.getD_eq_getElem?_getD]
    cases ht : targets[(key.toInt - low.toInt).toNat]? with
    | none => exact List.mem_cons_self
    | some target => exact List.mem_cons_of_mem _ (List.mem_of_getElem? ht)
  · exact List.mem_cons_self

theorem lookupTarget_mem (fallback : Nat) (pairs : List (Int32 × Nat)) (key : Int32) :
    lookupTarget fallback pairs key ∈ fallback :: pairs.map (·.2) := by
  unfold lookupTarget
  cases hp : pairs.find? (·.1 == key) with
  | none => exact List.mem_cons_self
  | some p => exact List.mem_cons_of_mem _ (List.mem_map_of_mem (List.mem_of_find?_eq_some hp))

theorem obeys_execute (hh : hooks.Refines hooks) (h : i.stackEffect? = some effect) :
    Obeys hooks i effect i.Goes (execute chain hooks i) := by
  have hsimple : Obeys hooks i effect i.Goes (do executeSimple chain hooks i; return Next.advance) :=
    obeys_advance (obeys_executeSimple hh h) fun a w s a' s' hok => goes_executeSimple hok
  obtain ⟨opcode, operand⟩ := i
  cases opcode
  case ifInt c =>
    cases h
    exact obeys_of_takes (Does.next (n := 0) (.takes (OperandStack.takes_testZero _ c))
      fun taken => takes_branchIf ⟨rfl, by nofun⟩ taken)
  case ifIntCmp c =>
    cases h
    exact obeys_of_takes (Does.next (n := 0) (.takes (OperandStack.takes_testInts _ c))
      fun taken => takes_branchIf ⟨rfl, by nofun⟩ taken)
  case ifRefCmp equal =>
    cases h
    refine obeys_of_takes ?_
    refine Does.next (n := 1) (.takes (OperandStack.takes_popReference _)) fun v => ?_
    refine Does.next (n := 0) (.takes (OperandStack.takes_popReference _)) fun v' => ?_
    refine (Does.lift (.look _) (Exec.Aloof.readHeap fun h => chain.aloof_compare h v' v).blames).next fun b => ?_
    exact takes_branchIf ⟨rfl, by nofun⟩ _
  case ifNull null =>
    cases h
    exact obeys_of_takes (Does.next (n := 0) (.takes (OperandStack.takes_popReference _))
      fun v => takes_branchIf ⟨rfl, by nofun⟩ _)
  case goto =>
    cases h
    exact obeys_of_takes (takes_jumpTarget.bind fun target ht => .pure _ fun _ => ⟨rfl, ht⟩)
  case tableSwitch =>
    cases h
    refine obeys_of_takes ?_
    cases operand
    case table low high fallback targets =>
      exact Does.next (n := 0) (.takes (OperandStack.takes_popInt _)) fun key =>
        .pure _ fun _ => ⟨rfl, tableTarget_mem low high key fallback targets⟩
    all_goals exact .badOperand _
  case lookupSwitch =>
    cases h
    refine obeys_of_takes ?_
    cases operand
    case lookup fallback pairs =>
      exact Does.next (n := 0) (.takes (OperandStack.takes_popInt _)) fun key =>
        .pure _ fun _ => ⟨rfl, lookupTarget_mem fallback pairs key⟩
    all_goals exact .badOperand _
  case valueReturn =>
    cases h
    refine obeys_of_takes (Does.next (n := 0) (.takes OperandStack.takes_pop) fun v => ?_)
    refine Does.get.next fun a => (Does.liftExcept (v.aloof_asType _ _).plain).next fun v => ?_
    exact .pure _ fun _ => ⟨rfl, trivial⟩
  case voidReturn =>
    cases h
    refine obeys_of_takes (Does.get.next fun a => ?_)
    dsimp only
    split
    · exact .pure _ fun _ => ⟨rfl, trivial⟩
    · exact .fail rfl
  all_goals exact hsimple

end Step

end Jvm
