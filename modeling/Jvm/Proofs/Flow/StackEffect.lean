import Jvm.Flow.Transfer
import Mathlib.Data.List.Forall2

/-!
# Stack effects

`Instruction.stackEffect?` says for each instruction how many entries it takes off a stack and what it
pushes, or how it moves entries, whatever the entries are: frames of the dataflow analysis, values of a
running method, or symbolic operands. `StackEffect.run?` carries an effect out on a stack of any kind.

`run?_rel` is the reason for the generality: an effect respects every relation of entries that keeps
their words. The analysis and the machine are both compared with this one table.
-/

namespace Jvm

/-- A value that an instruction makes: its words and, for a load of a constant, the constant. -/
structure Pushed where
  width : Width
  constant? : Option Constant
deriving DecidableEq

/-- What an instruction does to a stack. -/
inductive StackEffect where
  /-- Takes entries and pushes a value or none. -/
  | replace (count : Nat) (pushed : Option Pushed)
  /-- Takes the entries that make up a number of words. -/
  | drop (words : Nat)
  /-- Copies the `top` words on top below the `under` words that follow them. -/
  | copy (top under : Nat)
  /-- Exchanges two entries of one word. -/
  | exchange
  /-- Takes the entry on top and pushes the same entry. -/
  | recast
deriving DecidableEq

namespace StackEffect

/-- The value that is made. -/
def pushed? : StackEffect → Option Pushed
  | replace _ pushed => pushed
  | _ => none

/-- The entries taken, bottom first, and the stack afterwards, where `make` is the entry of a new value.
Nothing if there are too few entries or one would be split. -/
def run? {α : Type} [HasWidth α] (e : StackEffect) (make : Pushed → α) (stack : List α) :
    Option (List α × List α) :=
  match e with
  | replace count pushed =>
    if stack.length < count then none
    else some ((stack.take count).reverse, (pushed.map make).toList ++ stack.drop count)
  | drop words =>
    match Words.takeWords "" words stack with
    | .ok (taken, rest) => some (taken.reverse, rest)
    | .error _ => none
  | copy top under =>
    match Words.dupWords "" top under stack with
    | .ok moved => some ([], moved)
    | .error _ => none
  | exchange =>
    match Words.swap stack with
    | .ok moved => some ([], moved)
    | .error _ => none
  | recast =>
    match stack with
    | [] => none
    | a :: rest => some ([a], a :: rest)

end StackEffect

namespace Instruction

/-- The constant that an instruction loads. -/
def loaded? (i : Instruction) : Option Constant :=
  match i.opcode with
  | .iconst n => some (.int (Int32.ofInt (n.val - 1)))
  | .lconst n => some (.long (Int64.ofNat n))
  | .fconst n => some (.float (Float32.ofNat n))
  | .dconst n => some (.double (Float.ofNat n))
  | .bipush | .sipush =>
    match i.operand with
    | .int value => some (.int value)
    | _ => none
  | .ldc => i.constant?
  | _ => none

/-- A call takes its arguments and, unless it is static, a receiver. -/
def callEffect (receiver : Nat) (descriptor : String) : Option StackEffect :=
  match MethodDescriptor.parse descriptor with
  | .error _ => none
  | .ok d =>
    some (.replace (d.parameters.length + receiver)
      (if d.returns.isVoid then none else some ⟨Flow.widthOf d.returns, none⟩))

/-- What an instruction does to a stack; nothing if its operand is not one that the opcode needs. -/
def stackEffect? (i : Instruction) : Option StackEffect :=
  let takes (count : Nat) : Option StackEffect := some (.replace count none)
  let makes (count : Nat) (w : Width) : Option StackEffect := some (.replace count (some ⟨w, none⟩))
  match i.opcode with
  | .nop | .iinc | .goto | .voidReturn | .ret => takes 0
  | .iconst _ | .lconst _ | .fconst _ | .dconst _ | .bipush | .sipush | .ldc =>
    i.loaded?.map fun c => .replace 0 (some ⟨c.width, some c⟩)
  | .aconstNull | .jsr => makes 0 .single
  | .load t =>
    match i.operand with
    | .slot _ => makes 0 (Flow.slotWidth t)
    | _ => none
  | .store _ | .ifInt _ | .ifNull _ | .tableSwitch | .lookupSwitch | .valueReturn _ | .athrow
  | .monitor _ | .putStatic => takes 1
  | .ifIntCmp _ | .ifRefCmp _ | .putField => takes 2
  | .arrayLoad t => makes 2 (Flow.elemWidth t)
  | .arrayStore _ => takes 3
  | .arrayLength | .instanceOf => makes 1 .single
  | .newArray =>
    match i.operand with
    | .newArray _ => makes 1 .single
    | _ => none
  | .anewArray =>
    match i.operand with
    | .classRef name => if (FieldType.ofClassOperand name).isOk then makes 1 .single else none
    | _ => none
  | .multiNewArray =>
    match i.operand with
    | .multiArray _ dimensions => makes dimensions.toNat .single
    | _ => none
  | .pop => some (.drop 1)
  | .pop2 => some (.drop 2)
  | .dup wide under => some (.copy (if wide then 2 else 1) under)
  | .swap => some .exchange
  | .arith _ t => makes 2 (Flow.numWidth t)
  | .shift _ s | .bits _ s => makes 2 (Flow.intWidth s)
  | .lcmp | .fcmp _ | .dcmp _ => makes 2 .single
  | .neg t => makes 1 (Flow.numWidth t)
  | .convert c => makes 1 (Flow.conversionWidth c)
  | .getStatic | .getField =>
    match i.operand with
    | .field m =>
      match FieldType.parse m.descriptor with
      | .ok t => makes (if i.opcode = .getField then 1 else 0) (Flow.widthOf t)
      | .error _ => none
    | _ => none
  | .invoke kind =>
    match i.operand with
    | .method m => callEffect (if kind = .static then 0 else 1) m.descriptor
    | _ => none
  | .invokeDynamic =>
    match i.operand with
    | .dynamic _ descriptor => callEffect 0 descriptor
    | _ => none
  | .new =>
    match i.operand with
    | .classRef _ => makes 0 .single
    | _ => none
  | .checkCast => some .recast

/-- The effect of a call is known where its descriptor is well-formed. -/
theorem exists_of_callEffect {receiver : Nat} {descriptor : String} {e : StackEffect}
    (h : callEffect receiver descriptor = some e) : ∃ d, MethodDescriptor.parse descriptor = .ok d ∧
      e = .replace (d.parameters.length + receiver)
        (if d.returns.isVoid then none else some ⟨Flow.widthOf d.returns, none⟩) := by
  rw [callEffect] at h
  split at h
  · cases h
  · rename_i d hd
    cases h
    exact ⟨d, hd, rfl⟩

end Instruction

/-! ### Effects respect relations -/

namespace Words

variable {α β : Type} [HasWidth α] [HasWidth β] {R : α → β → Prop}

theorem takeWords_rel (hw : ∀ a b, R a b → width a = width b) {name : String} (name' : String) {n : Nat}
    {σ taken rest : List α} {τ : List β} (hs : List.Forall₂ R σ τ)
    (h : takeWords name n σ = .ok (taken, rest)) :
    ∃ taken' rest', takeWords name' n τ = .ok (taken', rest') ∧ List.Forall₂ R taken taken' ∧
      List.Forall₂ R rest rest' := by
  induction hs generalizing n taken rest with
  | nil =>
    cases n with
    | zero => simp only [takeWords, Except.ok.injEq, Prod.mk.injEq] at h; simp [takeWords, ← h.1, ← h.2]
    | succ n => simp [takeWords] at h
  | @cons a b σ τ hab hs ih =>
    cases n with
    | zero =>
      simp only [takeWords, Except.ok.injEq, Prod.mk.injEq] at h
      obtain ⟨rfl, rfl⟩ := h
      exact ⟨[], b :: τ, rfl, .nil, .cons hab hs⟩
    | succ n =>
      simp only [takeWords, ← hw a b hab] at h ⊢
      split at h
      · simp at h
      rename_i hn
      rw [if_neg hn]
      split at h
      · rename_i t r heq
        obtain ⟨t', r', ht, h1, h2⟩ := ih heq
        simp only [Except.ok.injEq, Prod.mk.injEq] at h
        obtain ⟨rfl, rfl⟩ := h
        exact ⟨b :: t', r', by rw [ht], .cons hab h1, h2⟩
      · simp at h

theorem dupWords_rel (hw : ∀ a b, R a b → width a = width b) {name : String} (name' : String)
    {top under : Nat} {σ moved : List α} {τ : List β} (hs : List.Forall₂ R σ τ)
    (h : dupWords name top under σ = .ok moved) :
    ∃ moved', dupWords name' top under τ = .ok moved' ∧ List.Forall₂ R moved moved' := by
  simp only [dupWords] at h ⊢
  split at h
  · simp at h
  rename_i copied below hc
  obtain ⟨copied', below', hc', h1, h2⟩ := takeWords_rel hw name' hs hc
  rw [hc']
  simp only
  split at h
  · simp at h
  rename_i skipped rest hk
  obtain ⟨skipped', rest', hk', h3, h4⟩ := takeWords_rel hw name' h2 hk
  rw [hk']
  simp only [Except.ok.injEq] at h
  subst h
  exact ⟨_, rfl, List.rel_append (List.rel_append (List.rel_append h1 h3) h1) h4⟩

/-- The name is for the failure only. -/
theorem takeWords_name {name : String} (name' : String) {n : Nat} {σ taken rest : List α}
    (h : takeWords name n σ = .ok (taken, rest)) : takeWords name' n σ = .ok (taken, rest) := by
  obtain ⟨taken', rest', h', h1, h2⟩ :=
    takeWords_rel (R := Eq) (fun _ _ hab => by rw [hab]) name' (List.forall₂_refl σ) h
  rw [List.forall₂_eq_eq_eq] at h1 h2
  rw [h', h1, h2]

theorem dupWords_name {name : String} (name' : String) {top under : Nat} {σ moved : List α}
    (h : dupWords name top under σ = .ok moved) : dupWords name' top under σ = .ok moved := by
  obtain ⟨moved', h', h1⟩ :=
    dupWords_rel (R := Eq) (fun _ _ hab => by rw [hab]) name' (List.forall₂_refl σ) h
  rw [List.forall₂_eq_eq_eq] at h1
  rw [h', h1]

theorem swap_rel (hw : ∀ a b, R a b → width a = width b) {σ moved : List α} {τ : List β}
    (hs : List.Forall₂ R σ τ) (h : swap σ = .ok moved) :
    ∃ moved', swap τ = .ok moved' ∧ List.Forall₂ R moved moved' := by
  cases hs with
  | nil => simp [swap] at h
  | @cons a c _ _ hac hs =>
    cases hs with
    | nil => simp [swap] at h
    | @cons b d σ τ hbd hs =>
      simp only [swap, ← hw a c hac, ← hw b d hbd] at h ⊢
      split at h
      · rename_i hsingle
        simp only [Except.ok.injEq] at h
        subst h
        exact ⟨d :: c :: τ, by rw [if_pos hsingle], .cons hbd (.cons hac hs)⟩
      · simp at h

end Words

namespace StackEffect

variable {α β : Type} [HasWidth α] [HasWidth β] {R : α → β → Prop}

theorem run?_congr {e : StackEffect} {make make' : Pushed → α}
    (hp : ∀ p, e.pushed? = some p → make p = make' p) (σ : List α) : e.run? make σ = e.run? make' σ := by
  cases e with
  | replace count pushed =>
    cases pushed with
    | none => rfl
    | some p => simp only [run?, Option.map_some, hp p rfl]
  | _ => rfl

/-- Related stacks stay related under an effect, entry by entry, if new values are related. -/
theorem run?_rel {e : StackEffect} {make : Pushed → α} {make' : Pushed → β}
    (hw : ∀ a b, R a b → width a = width b) (hp : ∀ p, e.pushed? = some p → R (make p) (make' p))
    {σ taken after : List α} {τ : List β} (hs : List.Forall₂ R σ τ)
    (h : e.run? make σ = some (taken, after)) :
    ∃ taken' after', e.run? make' τ = some (taken', after') ∧ List.Forall₂ R taken taken' ∧
      List.Forall₂ R after after' := by
  cases e with
  | replace count pushed =>
    simp only [run?, ← hs.length_eq] at h ⊢
    split at h
    · simp at h
    rename_i hn
    simp only [Option.some.injEq, Prod.mk.injEq] at h
    obtain ⟨rfl, rfl⟩ := h
    refine ⟨_, _, if_neg hn, List.rel_reverse (List.forall₂_take count hs), List.rel_append ?_
      (List.forall₂_drop count hs)⟩
    cases pushed with
    | none => exact .nil
    | some p => exact .cons (hp p rfl) .nil
  | drop words =>
    simp only [run?] at h ⊢
    split at h
    · rename_i heq
      obtain ⟨taken', rest', ht, h1, h2⟩ := Words.takeWords_rel hw "" hs heq
      simp only [Option.some.injEq, Prod.mk.injEq] at h
      obtain ⟨rfl, rfl⟩ := h
      exact ⟨_, _, by rw [ht], List.rel_reverse h1, h2⟩
    · simp at h
  | copy top under =>
    simp only [run?] at h ⊢
    split at h
    · rename_i heq
      obtain ⟨moved', hm, h1⟩ := Words.dupWords_rel hw "" hs heq
      simp only [Option.some.injEq, Prod.mk.injEq] at h
      obtain ⟨rfl, rfl⟩ := h
      exact ⟨_, _, by rw [hm], .nil, h1⟩
    · simp at h
  | exchange =>
    simp only [run?] at h ⊢
    split at h
    · rename_i heq
      obtain ⟨moved', hm, h1⟩ := Words.swap_rel hw hs heq
      simp only [Option.some.injEq, Prod.mk.injEq] at h
      obtain ⟨rfl, rfl⟩ := h
      exact ⟨_, _, by rw [hm], .nil, h1⟩
    · simp at h
  | recast =>
    cases hs with
    | nil => simp [run?] at h
    | cons hab hs =>
      simp only [run?, Option.some.injEq, Prod.mk.injEq] at h
      obtain ⟨rfl, rfl⟩ := h
      exact ⟨_, _, rfl, .cons hab .nil, .cons hab hs⟩

/-- An effect only moves entries and adds new ones. -/
theorem run?_all {P : α → Prop} {e : StackEffect} {make : Pushed → α} {σ taken after : List α}
    (hp : ∀ p, e.pushed? = some p → P (make p)) (hs : ∀ a ∈ σ, P a)
    (h : e.run? make σ = some (taken, after)) : (∀ a ∈ taken, P a) ∧ ∀ a ∈ after, P a := by
  have hσ : List.Forall₂ (fun a b => a = b ∧ P a) σ σ :=
    List.forall₂_same.2 fun a ha => ⟨rfl, hs a ha⟩
  obtain ⟨taken', after', h', h1, h2⟩ :=
    run?_rel (fun _ _ hab => by rw [hab.1]) (fun p he => ⟨rfl, hp p he⟩) hσ h
  rw [h, Option.some.injEq, Prod.mk.injEq] at h'
  obtain ⟨rfl, rfl⟩ := h'
  exact ⟨fun a ha => (List.forall₂_same.1 h1 a ha).2, fun a ha => (List.forall₂_same.1 h2 a ha).2⟩

end StackEffect

end Jvm
