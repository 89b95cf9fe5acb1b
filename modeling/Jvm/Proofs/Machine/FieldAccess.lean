import Jvm.Proofs.Machine.History

/-!
# How instructions on fields end

What is known of an instruction on a field that has been executed: which moment came before it, and what it did
there. An instruction on a field of an object takes effect where it begins, one on a static field where its class has
been set up. No other instruction writes to fields of that kind (`Ends.statics`, `Ends.keepsFields`).
-/

namespace Jvm

theorem State.static?_putStatic (s : State) (owner name owner' name' : String) (v : Value) :
    (s.putStatic owner name v).static? owner' name' =
      if (owner, name) = (owner', name') then some v else s.static? owner' name' :=
  find?_replace s.statics (owner, name) (owner', name') v

theorem Value.fits_initial (ty : FieldType) : (initial ty).fits ty = true := by cases ty <;> rfl

namespace OperandStack

variable {stack : OperandStack} {v : Value} {rest : List Value}

theorem pop_of_values (h : stack.values = v :: rest) :
    ∃ stack', pop stack = .ok v stack' ∧ stack'.values = rest ∧ stack'.limit = stack.limit := by
  unfold pop
  split
  · rename_i hnil
    cases hnil.symm.trans h
  · rename_i hcons
    cases hcons.symm.trans h
    exact ⟨_, rfl, rfl, rfl⟩

theorem popReference_of_values {id : Nat} (name : String) (h : stack.values = .ref id :: rest) :
    ∃ stack', popReference name stack = .ok (.ref id) stack' ∧ stack'.values = rest ∧ stack'.limit = stack.limit := by
  obtain ⟨stack', hpop, hrest, hlimit⟩ := pop_of_values h
  refine ⟨stack', ?_, hrest, hlimit⟩
  rw [popReference, popAs, bind_apply, hpop]
  rfl

end OperandStack

namespace Step

variable {chain : Chain} {hooks : Hooks} {i : Instruction} {a : Activation} {w : World} {s : State} {f : MemberRef}

/-- A value is pushed unless it is none that stacks hold or there is no room for it. -/
theorem push_advance (v : Value) : (∃ stack, stack.values = v :: a.stack.values ∧
      (push v >>= fun _ => pure .advance : Step Next) a w s = .ok (.advance, { a with stack }) s) ∨
    (v = .void ∨ v = .top ∨ a.stack.limit ≤ a.stack.depth) ∧
      ∃ f, (push v >>= fun _ => pure .advance : Step Next) a w s = .error (.error (.emulation f)) s ∧
        ∀ owner name, f ≠ .unresolvedField owner name := by
  rw [bind_apply, push, liftStack_apply, OperandStack.push]
  by_cases hvalue : v = .void ∨ v = .top
  · rw [if_pos hvalue]
    refine .inr ⟨hvalue.imp_right .inl, _, rfl, fun _ _ h => ?_⟩
    cases h
  rw [if_neg hvalue]
  by_cases hroom : a.stack.limit ≤ a.stack.depth
  · rw [if_pos hroom]
    exact .inr ⟨.inr (.inr hroom), _, rfl, fun _ _ h => by cases h⟩
  · rw [if_neg hroom]
    exact .inl ⟨_, rfl, rfl⟩

/-- A load from a field of an object pushes its value, if the descriptor is one and the object has fields. -/
theorem execute_getField (chain : Chain) (hooks : Hooks) (w : World) (s : State) {id : Nat} {rest : List Value}
    (hi : i.opcode = .getField) (hm : i.member? = some f) (hvalues : a.stack.values = .ref id :: rest) :
    (∃ e, execute chain hooks i a w s = .error e s ∧
      ((∀ ty, fieldType f.descriptor ≠ .ok ty) ∨ s.heap.fields? id = none)) ∨
    ∃ ty fields stack, fieldType f.descriptor = .ok ty ∧ s.heap.fields? id = some fields ∧ stack.values = rest ∧
      stack.limit = a.stack.limit ∧ execute chain hooks i a w s =
        (push ((fields.get? f.name).getD (.initial ty)) >>= fun _ => pure .advance : Step Next)
          { a with stack } w s := by
  simp only [execute, executeSimple, hi, member, hm, pure_bind, bind_assoc]
  rw [bind_apply, liftExcept_apply]
  cases hty : fieldType f.descriptor with
  | error => exact .inl ⟨_, rfl, .inl fun _ h => by cases h⟩
  | ok ty =>
    dsimp only
    obtain ⟨stack, hpop, hrest, hlimit⟩ := OperandStack.popReference_of_values Opcode.getField.mnemonic hvalues
    rw [bind_apply, liftStack_apply, hpop]
    dsimp only
    rw [bind_apply, lift_apply, Exec.narrow, Exec.readHeap_apply]
    cases hn : s.heap.narrow View.record (.ref id) with
    | error e =>
      refine .inl ⟨_, rfl, .inr ?_⟩
      cases hfields : s.heap.fields? id with
      | none => rfl
      | some fields => cases hn.symm.trans (Heap.narrow_record.2 ⟨id, rfl, hfields⟩)
    | ok fields =>
      obtain ⟨_, hid, hfields⟩ := Heap.narrow_record.1 hn
      cases hid
      exact .inr ⟨ty, fields, stack, rfl, hfields, hrest, hlimit, rfl⟩

/-- A store to a field of an object is done, if it has a value that the descriptor admits and the object has
fields. -/
theorem execute_putField_ok (chain : Chain) (hooks : Hooks) (w : World) {id : Nat} {v : Value} {rest : List Value}
    {ty : FieldType} {fields : Fields}
    (hi : i.opcode = .putField) (hm : i.member? = some f) (hvalues : a.stack.values = v :: .ref id :: rest)
    (hty : fieldType f.descriptor = .ok ty) (hfits : v.fits ty = true) (hfields : s.heap.fields? id = some fields) :
    ∃ stack, stack.values = rest ∧ execute chain hooks i a w s =
      .ok (.advance, { a with stack }) { s with heap := s.heap.edit View.record id (·.put f.name v) } := by
  obtain ⟨stack₁, hpop, hrest₁, -⟩ := OperandStack.pop_of_values hvalues
  obtain ⟨stack, hpop', hrest, -⟩ := OperandStack.popReference_of_values Opcode.putField.mnemonic hrest₁
  have hnarrow : s.heap.narrow View.record (.ref id) = .ok fields := Heap.narrow_record.2 ⟨id, rfl, hfields⟩
  refine ⟨stack, hrest, ?_⟩
  simp only [execute, executeSimple, hi, member, hm, pure_bind, bind_assoc]
  rw [bind_apply, liftStack_apply, hpop]
  dsimp only
  rw [bind_apply, liftExcept_apply, hty]
  dsimp only
  rw [bind_apply, liftExcept_apply, Value.asType, if_pos hfits]
  dsimp only
  rw [bind_apply, liftStack_apply, hpop']
  dsimp only
  rw [bind_apply, lift_apply, Exec.onHeap_modify, Heap.editing, hnarrow]
  rfl

/-- A store whose operands are not found fails for another reason than a missing field. -/
theorem intent_putStatic {stack : OperandStack} {e : Fault} (hi : i.opcode = .putStatic) (hm : i.member? = some f)
    (hn : intent i a.stack = .error e stack) : e ≠ .unresolvedField f.owner f.name := by
  simp only [intent, hi, onMember, hm, storeIntent] at hn
  rw [OperandStack.bind_apply] at hn
  cases hpop : OperandStack.pop a.stack with
  | error e' =>
    rw [hpop] at hn
    cases hn
    unfold OperandStack.pop at hpop
    split at hpop <;> cases hpop
    exact fun h => by cases h
  | ok v rest =>
    rw [hpop] at hn
    dsimp only at hn
    rw [OperandStack.bind_apply, ofStack_apply] at hn
    cases hty : fieldType f.descriptor with
    | error e' =>
      rw [hty] at hn
      cases hn
      unfold fieldType at hty
      split at hty <;> cases hty
      exact fun h => by cases h
    | ok ty =>
      rw [hty] at hn
      dsimp only at hn
      rw [OperandStack.bind_apply, ofStack_apply, Value.asType] at hn
      by_cases hfits : v.fits ty = true
      · rw [if_pos hfits] at hn
        cases hn
      · rw [if_neg hfits] at hn
        cases hn
        exact fun h => by cases h

end Step

namespace Ends

variable {chain : Chain} {w : World} {i : Instruction} {a : Activation} {L : List Moment} {s t : State}
  {r : Except Stop (Next × Activation)} {f : MemberRef}

theorem of_getStatic (hi : i.opcode = .getStatic) (hm : i.member? = some f) (h : Ends chain w i a L s r t) :
    (∃ L' e, L = L' ++ [⟨.fails f.owner, s⟩] ∧ r = .error e ∧ t = s) ∨
    ∃ L' v, L = L' ++ [⟨.uses f.owner, s⟩] ∧ (Step.effect chain i v (.loadStatic f) a).outcome w s = (r, t) := by
  have hload : Step.intent i a.stack = .ok (.loadStatic f) a.stack := by
    rw [Step.intent, hi, Step.onMember, hm]
    rfl
  cases h with
  | operands hn => cases hload.symm.trans hn
  | setUp hn hname => cases hload.symm.trans hn; cases hname; exact .inl ⟨_, _, rfl, rfl, rfl⟩
  | call hn hc => cases hload.symm.trans hn; cases hc
  | effect hn _ hlast hx =>
    cases hload.symm.trans hn
    obtain ⟨L', hL⟩ := hlast rfl
    exact .inr ⟨L', _, hL, hx⟩

theorem of_putStatic (hi : i.opcode = .putStatic) (hm : i.member? = some f) (h : Ends chain w i a L s r t) :
    (∃ L' e, L = L' ++ [⟨.begins i a, s⟩] ∧ e ≠ .unresolvedField f.owner f.name ∧
      r = .error (.error (.emulation e)) ∧ t = s) ∨
    (∃ L' e, L = L' ++ [⟨.fails f.owner, s⟩] ∧ r = .error e ∧ t = s) ∨
    ∃ L' u v stack ty, L = L' ++ [⟨.uses f.owner, s⟩] ∧ a.stack.values = u :: stack.values ∧
      Step.fieldType f.descriptor = .ok ty ∧ u.fits ty = true ∧
      (Step.effect chain i v (.storeStatic f u) { a with stack }).outcome w s = (r, t) := by
  have hstore {n : Intent} {stack : OperandStack} (hn : Step.intent i a.stack = .ok n stack) :
      ∃ u ty, n = .storeStatic f u ∧ a.stack.values = u :: stack.values ∧ Step.fieldType f.descriptor = .ok ty ∧
        u.fits ty = true := by
    have hintended := Step.intended hn
    cases n with
    | storeStatic m u =>
      obtain ⟨-, hm', hvalues, ty, hty, hfits⟩ := hintended
      obtain rfl := Option.some.inj (hm.symm.trans hm')
      exact ⟨u, ty, rfl, hvalues, hty, hfits⟩
    | plain => cases hm.symm.trans (hintended.1.member (.inr (.inl hi)))
    | loadStatic m => cases hi.symm.trans hintended.1
    | create className => cases hi.symm.trans hintended.1
    | call c returns =>
      obtain ⟨_, hi', -⟩ := hintended
      cases hi.symm.trans hi'
  cases h with
  | operands hn => exact .inl ⟨_, _, rfl, Step.intent_putStatic hi hm hn, rfl, rfl⟩
  | setUp hn hname =>
    obtain ⟨u, ty, rfl, -⟩ := hstore hn
    cases hname
    exact .inr (.inl ⟨_, _, rfl, rfl, rfl⟩)
  | call hn hc =>
    obtain ⟨u, ty, rfl, -⟩ := hstore hn
    cases hc
  | effect hn _ hlast hx =>
    obtain ⟨u, ty, rfl, hvalues, hty, hfits⟩ := hstore hn
    obtain ⟨L', hL⟩ := hlast rfl
    exact .inr (.inr ⟨L', u, _, _, ty, hL, hvalues, hty, hfits, hx⟩)

/-- Only stores to static fields change these. -/
theorem statics (hi : i.opcode ≠ .putStatic) (h : Ends chain w i a L s r t) : t.statics = s.statics := by
  by_cases hput : i.opcode = .putField
  · cases r with
    | error e => exact h.changes_of_error.statics not_false
    | ok p =>
      obtain ⟨-, hx⟩ := h.of_plain (by rw [Step.intent, hput]; rfl)
      cases hm : i.member? with
      | none =>
        simp only [Step.execute, Step.executeSimple, hput, Step.member, hm] at hx
        cases hx
      | some m =>
        obtain ⟨e, he⟩ | ⟨v, id, fields, ty, a', -, -, -, -, hok⟩ :=
          Step.execute_putField chain .idle a w s hput hm
        · cases (Exec.outcome_of_error he).symm.trans hx
        · cases (Exec.outcome_of_ok hok).symm.trans hx
          rfl
  · have hchanges : s.Changes False t := h.changes fun hw => hw.elim hi hput
    exact hchanges.statics not_false

/-- Only stores to fields of objects change these. -/
theorem keepsFields (hi : i.opcode ≠ .putField) (h : Ends chain w i a L s r t) : s.heap.KeepsFields t.heap := by
  by_cases hput : i.opcode = .putStatic
  · cases r with
    | error e => exact h.changes_of_error.heap.keepsFields
    | ok p =>
      -- nothing is known of static fields where stores are allowed, so this is read off the instruction
      have hsame : t.heap = s.heap := by
        cases hm : i.member? with
        | none =>
          obtain ⟨-, hx⟩ := h.of_plain (by simp only [Step.intent, hput, Step.onMember, hm]; rfl)
          simp only [Step.execute, Step.executeSimple, hput, Step.member, hm] at hx
          cases hx
        | some f =>
          obtain ⟨_, _, -, -, hr, -⟩ | ⟨_, _, -, hr, -⟩ | ⟨_, _, _, _, _, -, -, -, -, hx⟩ := h.of_putStatic hput hm
          · cases hr
          · cases hr
          · rw [Exec.outcome, Step.effect_storeStatic] at hx
            obtain ⟨q, hq⟩ | ⟨e, he⟩ := Step.resolveStatic_apply f w s
            · rw [hq] at hx
              cases hx
              rfl
            · rw [he] at hx
              cases hx
      rw [hsame]
      exact .refl _
  · have hchanges : s.Changes False t := h.changes fun hw => hw.elim hput hi
    exact hchanges.heap.keepsFields

end Ends

end Jvm
