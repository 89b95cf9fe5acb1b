import Jvm.Proofs.Assembly.Labels
import Jvm.Proofs.Machine.Instructions
import Jvm.Proofs.Machine.Places

/-!
# Switches over a range of keys

`tableSwitch_dispatches`: where a run goes on after an assembled table switch. It is the place of the key's label,
except for keys that the highest key of the table falls short of: the largest of all keys, and those that lie too
far above the lowest (`Covered`). The highest key is worked out with bounds, and the bound is met one step before
it is needed (`toInt_highKey`), so a table that ends with the largest key loses it (`tableSwitch_misses_largest`).
-/

namespace Jvm

variable {low key : Int32}

/-- What a table from `low` on has for a key. -/
def entryFor? {α : Type} (low : Int32) (entries : List α) (key : Int32) : Option α :=
  if low ≤ key then entries[(key.toInt - low.toInt).toNat]? else none

/-- A table from `low` on that is long enough reaches the key. -/
def Covered (low key : Int32) : Prop := key.toInt < 0x7fffffff ∧ key.toInt - low.toInt < 0x7fffffff

instance : Decidable (Covered low key) := inferInstanceAs (Decidable (_ ∧ _))

theorem toInt_highKey (low : Int32) (count : Nat) : (AsmItem.highKey low count).toInt =
    max (min (low.toInt + min (count : Int) 0x7fffffff) 0x7fffffff - 1) (-0x80000000) := by
  have hlow := low.toInt_lt
  have hlow' := low.le_toInt
  rw [AsmItem.highKey, Int32.toInt_ofInt_of_le] <;> omega

/-- Of the keys that a table has entries for, it reaches those that are covered. -/
theorem le_highKey_iff {count : Nat} (hlow : low ≤ key) (hcount : key.toInt - low.toInt < count) :
    key ≤ AsmItem.highKey low count ↔ Covered low key := by
  have hhigh := toInt_highKey low count
  have hkey := low.le_toInt
  rw [Int32.le_iff_toInt_le] at hlow ⊢
  unfold Covered
  omega

theorem tableTarget_highKey (low key : Int32) (fallback : Nat) (targets : List Nat) :
    Step.tableTarget low (AsmItem.highKey low targets.length) fallback targets key =
      if Covered low key then (entryFor? low targets key).getD fallback else fallback := by
  rw [Step.tableTarget, entryFor?, List.getD_eq_getElem?_getD]
  by_cases hlow : low ≤ key
  · rw [if_pos hlow]
    by_cases hcount : key.toInt - low.toInt < targets.length
    · simp only [le_highKey_iff hlow hcount, hlow, true_and]
    · rw [List.getElem?_eq_none (by omega), Option.getD_none, ite_self, ite_self]
  · rw [if_neg fun h => hlow h.1, if_neg hlow, Option.getD_none, ite_self]

namespace Assembler

variable {items before after : List AsmItem} {item : AsmItem} {name : String} {names : List String}
  {slots : Option UInt16} {body : MethodBody}

theorem encodes_of_assemble (h : assemble items slots = .ok body) : Encodes items body.instructions.toList ∧
    ∀ i ∈ body.instructions.toList, ∀ target ∈ i.targets, target < body.size := by
  have hassembled := assembled_assemble items slots
  rw [h] at hassembled
  cases hassembled with
  | done _ hcode htargets => exact ⟨hcode, htargets⟩

/-- The instruction of an item stands behind those of the items in front. -/
theorem Encodes.getElem? {code : List Instruction} (h : Encodes (before ++ item :: after) code)
    (hitem : item.bound? = none) :
    ∃ i, code[(emissions before).length]? = some i ∧ Emits (before ++ item :: after) item i := by
  have hemissions : emissions (before ++ item :: after) = emissions before ++ item :: emissions after := by
    simp [emissions, hitem]
  unfold Encodes at h
  rw [hemissions] at h
  have hlength := h.length_eq
  rw [List.length_append, List.length_cons] at hlength
  have hlt : (emissions before).length < code.length := by omega
  refine ⟨_, List.getElem?_eq_getElem hlt, ?_⟩
  simpa using h.get (i := (emissions before).length) (by simp) hlt

theorem forall₂_entryFor? {α β : Type} {R : α → β → Prop} {a : α} {b : β} {as : List α} {bs : List β}
    (h : List.Forall₂ R as bs) (hab : R a b) :
    R ((entryFor? low as key).getD a) ((entryFor? low bs key).getD b) := by
  unfold entryFor?
  split
  · generalize (key.toInt - low.toInt).toNat = n
    induction h generalizing n with
    | nil => exact hab
    | cons hfirst _ ih =>
      cases n with
      | zero => exact hfirst
      | succ n => exact ih n
  · exact hab

end Assembler

namespace Chain

variable {chain : Chain} {hooks : Hooks} {a : Activation} {stack : OperandStack} {w : World} {s s' : State}

/-- A table switch takes its key and jumps. -/
theorem perform_tableSwitch {high : Int32} {fallback : Nat} {targets : List Nat}
    (hpop : OperandStack.pop a.stack = .ok (.int key) stack) (htick : Exec.tick w s = .ok () s') :
    chain.perform hooks ⟨.tableSwitch, .table low high fallback targets⟩ a w s =
      .ok (.jump (Step.tableTarget low high fallback targets key), { a with stack }) s' := by
  have hkey : ∀ name, OperandStack.popInt name a.stack = .ok key stack := by
    intro name
    rw [OperandStack.popInt, OperandStack.popAs, OperandStack.bind_apply, hpop]
    rfl
  rw [perform, Exec.bind_apply, htick]
  change (liftM (OperandStack.popInt _) >>= fun key => pure (Next.jump _) : Step Next) a w s' = _
  rw [Step.bind_apply, Step.liftStack_apply, hkey]
  rfl

end Chain

namespace Assembler

open Chain

variable {items before after : List AsmItem} {name : String} {names : List String} {slots : Option UInt16}
  {body : MethodBody}

/-- Executing an assembled table switch goes on at the place of a label: that of the key if it is covered and the
table has one for it, and otherwise the fallback. -/
theorem tableSwitch_dispatches (hbody : assemble items slots = .ok body)
    (hitems : items = before ++ .tableSwitch low name names :: after) (key : Int32) : ∃ target,
    BoundAt items (if Covered low key then (entryFor? low names key).getD name else name) target ∧
    target < body.size ∧
    ∀ (chain : Chain) (owner : ClassFile) (m : Method) (fuel : Nat) (w : World) (s s' : State) (a : Activation)
      (stack : OperandStack), OperandStack.pop a.stack = .ok (.int key) stack → Exec.tick w s = .ok () s' →
      chain.run owner m body.instructions (fuel + 1) (emissions before).length a w s =
        chain.run owner m body.instructions fuel target { a with stack } w s' := by
  obtain ⟨hcode, htargets⟩ := encodes_of_assemble hbody
  subst hitems
  obtain ⟨i, hi, hemits⟩ := hcode.getElem? rfl
  cases hemits with
  | @tableSwitch _ _ _ fallback targets hfallback hnames =>
    have hmem := Step.tableTarget_mem low (AsmItem.highKey low names.length) key fallback targets
    have htarget := htargets _ (List.mem_of_getElem? hi) _ hmem
    refine ⟨_, ?_, htarget, fun chain owner m fuel w s s' a stack hpop htick => ?_⟩
    · rw [hnames.length_eq, tableTarget_highKey]
      split
      · exact forall₂_entryFor? hnames hfallback
      · exact hfallback
    · refine run_moves (q := ⟨fuel + 1, _, a, s⟩) (r := ⟨fuel, _, { a with stack }, s'⟩) ?_
      exact .jump (Array.getElem?_toList.symm.trans hi) (perform_tableSwitch hpop htick) htarget

/-- Answers 1 for the key `low`, 2 for the key behind it, and 0 for all others. -/
def dial (low : Int32) : List AsmItem :=
  [.emit ⟨.load .int, .slot 0⟩, .tableSwitch low "other" ["first", "second"],
    .label "first", .pushInt 1, .op (.valueReturn .int),
    .label "second", .pushInt 2, .op (.valueReturn .int),
    .label "other", .pushInt 0, .op (.valueReturn .int)]

def dialBody (low high : Int32) : MethodBody :=
  ⟨#[⟨.load .int, .slot 0⟩, ⟨.tableSwitch, .table low high 6 [2, 4]⟩, ⟨.iconst 2, .none⟩, ⟨.valueReturn .int, .none⟩,
    ⟨.iconst 3, .none⟩, ⟨.valueReturn .int, .none⟩, ⟨.iconst 1, .none⟩, ⟨.valueReturn .int, .none⟩], 1⟩

/-- The key has been loaded. -/
def dialed (key : Int32) : Activation := ⟨{ limit := 1, values := [.int key] }, .ofCount 0, .int⟩

def dialWorld : World := ⟨⟨[]⟩, .standard, none, [], .still 0⟩

def dialMethod : Method := ⟨"dial", "(I)I", 8, none⟩

def dialClass : ClassFile := ⟨"Dial", none, [], 0, 0, [], []⟩

theorem assemble_dial : assemble (dial 3) none = .ok (dialBody 3 4) := by decide +kernel

theorem tableSwitch_dispatches_dial : assemble (dial 3) none = .ok (dialBody 3 4) ∧
    dial 3 = [.emit ⟨.load .int, .slot 0⟩] ++ .tableSwitch 3 "other" ["first", "second"] :: (dial 3).drop 2 ∧
    ∃ target, BoundAt (dial 3) "second" target ∧ target < (dialBody 3 4).size ∧
      ∀ s s', Exec.tick dialWorld s = .ok () s' →
        standard.run dialClass dialMethod (dialBody 3 4).instructions 9 1 (dialed 4) dialWorld s =
          standard.run dialClass dialMethod (dialBody 3 4).instructions 8 target
            { dialed 4 with stack := .empty 1 } dialWorld s' := by
  have hitems : dial 3 =
      [.emit ⟨.load .int, .slot 0⟩] ++ .tableSwitch 3 "other" ["first", "second"] :: (dial 3).drop 2 := rfl
  obtain ⟨target, hbound, htarget, hrun⟩ := tableSwitch_dispatches assemble_dial hitems 4
  have hlabel : (if Covered 3 4 then (entryFor? 3 ["first", "second"] 4).getD "other" else "other") = "second" := by
    decide +kernel
  rw [hlabel] at hbound
  exact ⟨assemble_dial, hitems, target, hbound, htarget, fun s s' htick => hrun _ _ _ _ _ _ _ _ _ rfl htick⟩

/-- A table that ends with the largest key loses it. -/
theorem tableSwitch_misses_largest : ¬ ∀ (items before after : List AsmItem) (low : Int32) (name : String)
    (names : List String) (slots : Option UInt16) (body : MethodBody), assemble items slots = .ok body →
    items = before ++ .tableSwitch low name names :: after → names ≠ [] →
    low.toInt + names.length - 1 ≤ 0x7fffffff → ∀ key, ∃ target,
      BoundAt items ((entryFor? low names key).getD name) target ∧
      ∀ (chain : Chain) (owner : ClassFile) (m : Method) (fuel : Nat) (w : World) (s s' : State) (a : Activation)
        (stack : OperandStack), OperandStack.pop a.stack = .ok (.int key) stack → Exec.tick w s = .ok () s' →
        chain.run owner m body.instructions (fuel + 1) (emissions before).length a w s =
          chain.run owner m body.instructions fuel target { a with stack } w s' := by
  intro h
  have hbody : assemble (dial 0x7ffffffe) none = .ok (dialBody 0x7ffffffe 0x7ffffffe) := by decide +kernel
  obtain ⟨target, hbound, hrun⟩ := h _ [.emit ⟨.load .int, .slot 0⟩] _ _ _ _ _ _ hbody rfl (by simp) (by decide)
    0x7fffffff
  have hlabel : (entryFor? 0x7ffffffe ["first", "second"] 0x7fffffff).getD "other" = "second" := by decide +kernel
  rw [hlabel] at hbound
  obtain ⟨-, rfl⟩ := (boundAt_iff (by decide +kernel)).1 hbound
  have hplace : placeOf (dial 0x7ffffffe) "second" = 4 := by decide +kernel
  rw [hplace] at hrun
  -- the switch answers as for a key outside of the table, the label as for its key
  have heq := hrun standard dialClass dialMethod 2 dialWorld (.start .standard) _ (dialed 0x7fffffff) _ rfl rfl
  have hswitch : standard.run dialClass dialMethod (dialBody 0x7ffffffe 0x7ffffffe).instructions 3 1
      (dialed 0x7fffffff) dialWorld (.start .standard) = .ok (.int 0) { State.start .standard with steps := 3 } := rfl
  have hsecond : standard.run dialClass dialMethod (dialBody 0x7ffffffe 0x7ffffffe).instructions 2 4
      { dialed 0x7fffffff with stack := .empty 1 } dialWorld { State.start .standard with steps := 1 } =
        .ok (.int 2) { State.start .standard with steps := 3 } := rfl
  have hanswers := hswitch.symm.trans (heq.trans hsecond)
  cases hanswers

end Assembler

end Jvm
