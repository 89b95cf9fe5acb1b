import Jvm.Proofs.Machine.Composition
import Jvm.Proofs.Machine.Intents

/-!
# What an action changes

An action alters the heap, and if it may write to fields, it stores to these (`State.Changes`); it does not
say by itself that a class is set up. This holds of whatever is built like any action (`Alike.changes`), so
of an instruction that takes effect and of how a call is answered. The two instructions that write to fields
are the only ones that do, and what they do is told exactly (`Step.execute_putField`, `Step.effect_storeStatic`).
-/

namespace Jvm

open Exec (Any)

/-- The heap is altered; `writes` says whether fields may be written to. -/
structure State.Changes (writes : Prop) (s t : State) : Prop where
  heap : s.heap.Leads writes t.heap
  statics : ¬ writes → t.statics = s.statics
  started : t.started = s.started

namespace State.Changes

variable {writes : Prop} {s t u : State}

theorem refl (s : State) : s.Changes writes s := ⟨.refl _, fun _ => rfl, rfl⟩

theorem trans (h : s.Changes writes t) (h' : t.Changes writes u) : s.Changes writes u :=
  ⟨h.heap.trans h'.heap, fun hw => (h'.statics hw).trans (h.statics hw), h'.started.trans h.started⟩

end State.Changes

namespace Exec

/-- The action changes no more than that, and `P` holds of its result. -/
def Changes (writes : Prop) {α : Type} (P : α → Prop) (x : Exec α) : Prop :=
  ∀ w s, match x w s with
    | .ok a t => P a ∧ s.Changes writes t
    | .error _ t => s.Changes writes t

variable {writes : Prop} {α β : Type} {P : α → Prop} {Q : β → Prop} {x y : Exec α} {w : World} {s t : State}

namespace Changes

theorem of_ok {a : α} (h : Changes writes P x) (hx : x w s = .ok a t) : P a ∧ s.Changes writes t := by
  have hs := h w s
  rw [hx] at hs
  exact hs

theorem of_error {e : Stop} (h : Changes writes P x) (hx : x w s = .error e t) : s.Changes writes t := by
  have hs := h w s
  rw [hx] at hs
  exact hs

theorem weaken {P' : α → Prop} (h : Changes writes P x) (hP : ∀ a, P a → P' a) : Changes writes P' x := by
  intro w s
  cases hx : x w s with
  | ok a t => exact ⟨hP a (h.of_ok hx).1, (h.of_ok hx).2⟩
  | error e t => exact h.of_error hx

theorem pure {a : α} (ha : P a) : Changes writes P (Pure.pure a) := fun _ s => ⟨ha, .refl s⟩

theorem failWith (e : Error) : Changes writes P (Exec.failWith e) := fun _ s => .refl s

theorem ofExcept (r : Except Fault α) : Changes writes Any (liftM r : Exec α) := by
  cases r with
  | ok a => exact pure trivial
  | error f => exact failWith _

theorem read : Changes writes Any (MonadReader.read : Exec World) := fun _ s => ⟨trivial, .refl s⟩

theorem pushFrame (owner name : String) (line : Int32) : Changes writes Any (Exec.pushFrame owner name line) := by
  intro w s
  rw [pushFrame_apply]
  by_cases h : w.limits.callDepth ≤ s.frames.length
  · rw [if_pos h]
    exact .refl s
  · rw [if_neg h]
    exact ⟨trivial, .refl _, fun _ => rfl, rfl⟩

theorem bind {f : α → Exec β} (hx : Changes writes P x) (hf : ∀ a, P a → Changes writes Q (f a)) :
    Changes writes Q (x >>= f) := by
  intro w s
  rw [bind_apply]
  cases h : x w s with
  | error e t => exact hx.of_error h
  | ok a t =>
    obtain ⟨ha, ht⟩ := hx.of_ok h
    dsimp only
    cases h' : f a w t with
    | ok b u => exact ⟨((hf a ha).of_ok h').1, ht.trans ((hf a ha).of_ok h').2⟩
    | error e u => exact ht.trans ((hf a ha).of_error h')

theorem findStatic (d : ClassDictionary) (m : MemberRef) (fuel : Nat) (owner : String) :
    Changes writes Any (Step.findStatic d m fuel owner) := by
  fun_induction Step.findStatic d m fuel owner with
  | case1 => exact fun _ s => .refl s
  | case2 => exact failWith _
  | case3 => exact pure trivial
  | case4 _ _ _ _ _ _ _ ih => exact ih
  | case5 => exact failWith _

end Changes

/-- Nothing is known of objects and methods; what is called changes no more, either. -/
def changing (writes : Prop) : Setting where
  sound := False
  reflects _ := True
  searches _ := True
  writes := writes
  calls x _ := Changes writes Any x
  setUps x _ := Changes writes Any x

theorem fits_changing (h : Heap) : h.Fits (changing writes).toPremises := by
  refine ⟨fun id p _ => ?_, fun hsound => hsound.elim⟩
  cases p with
  | array a => exact fun hsound => hsound.elim
  | _ => trivial

theorem Alike.changes (h : Alike (changing writes) P x y) : Changes writes P x := by
  induction h with
  | pure ha => exact .pure ha
  | failWith e => exact .failWith e
  | bind _ _ ihx ihf => exact ihx.bind ihf
  | weaken _ hP ih => exact ih.weaken hP
  | world => exact fun w s => ⟨fun _ _ _ _ _ => ⟨trivial, fun _ _ _ _ _ _ => trivial⟩, .refl s⟩
  | get _ _ ih => exact fun w s => ih s (fits_changing _) w s
  | @ofHeap _ _ x f hx hf =>
    intro w s
    rw [hx]
    cases hres : f s.heap with
    | error e => exact .refl s
    | ok p =>
      obtain ⟨ha, -, hleads⟩ := hf s.heap p.1 p.2 (fits_changing _) hres
      exact ⟨ha, hleads, fun _ => rfl, rfl⟩
  | clock => exact fun w s => ⟨trivial, .refl _, fun _ => rfl, rfl⟩
  | putStatic hw => exact fun w s => ⟨trivial, .refl _, fun hn => absurd hw hn, rfl⟩
  | @resolveStatic f _ => exact fun w s => (Changes.findStatic w.program f w.fuel f.owner) w s
  | call h => exact h
  | setUp h => exact h

end Exec

namespace Hooks

variable {writes : Prop}

theorem alike_idle : Hooks.Alike (Exec.changing writes) idle idle :=
  ⟨fun _ => Exec.Changes.pure trivial, fun _ => Exec.Changes.pure trivial⟩

end Hooks

/-! ### Calls -/

/-- How a call is answered is found out without a field being written to. -/
theorem Chain.changes_answer {chain : Chain} (hchain : chain.Ordinary) (c : Call) :
    Exec.Changes False Any (chain.answer c) := by
  have hvoid : Exec.Changes False Any (pure .void : Exec Value) := .pure trivial
  have hanswered : c.Answered (Exec.changing False) (fun _ _ _ _ => pure .void) (fun _ _ _ _ => pure .void)
      (fun _ => pure .void) (fun _ => pure .void) := ⟨fun _ _ _ _ _ => hvoid, fun _ _ _ => hvoid⟩
  -- with methods that do nothing, the call is answered by what comes before them
  have hresolve := (alike_resolveWith hchain hanswered).changes
  intro w s
  have hs := hresolve w s
  rw [resolveWith, Exec.bind_apply, Exec.read_apply] at hs
  rw [answer, Exec.bind_apply, Exec.read_apply]
  dsimp only at hs ⊢
  rw [Exec.bind_apply, Exec.get_apply] at hs ⊢
  dsimp only at hs ⊢
  cases hp : chain.provider? w.program s.heap c with
  | none => exact .refl s
  | some p =>
    simp only [hp, Provider.invoke_eq, map_bind] at hs
    rw [Exec.bind_apply] at hs
    dsimp only
    cases ha : p.answer c w s with
    | error e t =>
      rw [ha] at hs
      exact hs
    | ok answer t =>
      rw [ha] at hs
      exact ⟨trivial, by cases answer <;> exact hs.2⟩

/-- Fields are edited where an object has any. -/
theorem Heap.editing_record {h h' : Heap} {v : Value} {f : Fields → Fields} {u : Unit}
    (hx : editing View.record v f h = .ok (u, h')) :
    ∃ id fields, v = .ref id ∧ h.fields? id = some fields ∧ h' = h.edit View.record id f := by
  rw [editing] at hx
  cases hn : h.narrow View.record v with
  | error => rw [hn] at hx; cases hx
  | ok fields =>
    obtain ⟨id, rfl, hfields⟩ := narrow_record.1 hn
    rw [hn] at hx
    cases hx
    exact ⟨id, fields, rfl, hfields, rfl⟩

/-! ### Instructions that take effect -/

namespace Step

variable {chain : Chain} {hooks : Hooks} {i : Instruction} {n : Intent} {a : Activation} {v : Value} {w : World}
  {s : State} {m : MemberRef}

theorem alike_takeResult {E : Setting} (returns : FieldType) (v : Value) :
    Alike E (takeResult returns v) (takeResult returns v) := by
  unfold takeResult
  split
  · exact .pure _
  · exact (Alike.liftExcept _).bind fun v => alike_push v

/-- An instruction that takes effect alters the heap; fields are written to by two instructions only. -/
theorem changes_effect {writes : Prop} (hi : i.Writes → writes) {stack stack' : OperandStack}
    (hn : intent i stack = .ok n stack') (a : Activation) : Exec.Changes writes Any (effect chain i v n a) := by
  have advance {m : Step Unit} (hm : Alike (Exec.changing writes) m m) :
      Alike (Exec.changing writes) (m >>= fun _ => pure Next.advance) (m >>= fun _ => pure Next.advance) :=
    hm.bind fun _ => .pure _
  cases n with
  | plain => exact (alike_execute Hooks.alike_idle (fun _ _ => trivial) hi a).changes
  | loadStatic m =>
    have hload := Alike.lift (alike_getStatic Hooks.alike_idle (m := m) (E := Exec.changing writes) trivial)
    exact (hload.bind (fun v => (alike_push v).bind fun _ => .pure _) a).changes
  | storeStatic m v =>
    have hwrites := hi (Instruction.writes_putStatic (intended hn).1)
    exact (advance (.lift (alike_putStatic Hooks.alike_idle trivial hwrites v)) a).changes
  | create className =>
    exact ((Alike.lift (.placeholder className)).bind (fun v => (alike_push v).bind fun _ => .pure _) a).changes
  | call c returns => exact (advance (alike_takeResult returns v) a).changes

/-! ### Instructions that write to a field -/

theorem findStatic_apply (d : ClassDictionary) (m : MemberRef) (fuel : Nat) (owner : String) (w : World) (s : State) :
    (∃ p, findStatic d m fuel owner w s = .ok p s) ∨ ∃ e, findStatic d m fuel owner w s = .error e s := by
  fun_induction findStatic d m fuel owner with
  | case1 => exact .inr ⟨_, rfl⟩
  | case2 => exact .inr ⟨_, rfl⟩
  | case3 => exact .inl ⟨_, rfl⟩
  | case4 _ _ _ _ _ _ _ ih => exact ih
  | case5 => exact .inr ⟨_, rfl⟩

/-- The search for a static field changes nothing. -/
theorem resolveStatic_apply (m : MemberRef) (w : World) (s : State) :
    (∃ p, resolveStatic m w s = .ok p s) ∨ ∃ e, resolveStatic m w s = .error e s :=
  findStatic_apply w.program m w.fuel m.owner w s

theorem putStatic_idle (m : MemberRef) (u : Value) :
    putStatic .idle m u w s = match resolveStatic m w s with
      | .ok (owner, f) t => .ok () (t.putStatic owner f.name u)
      | .error e t => .error e t := by
  rw [putStatic, Exec.bind_apply]
  change (resolveStatic m >>= _) w s = _
  rw [Exec.bind_apply]
  cases resolveStatic m w s <;> rfl

theorem effect_storeStatic (m : MemberRef) (u : Value) :
    effect chain i v (.storeStatic m u) a w s = match resolveStatic m w s with
      | .ok (owner, f) t => .ok (.advance, a) (t.putStatic owner f.name u)
      | .error e t => .error e t := by
  rw [effect, bind_apply, lift_apply, putStatic_idle]
  cases resolveStatic m w s <;> rfl

theorem execute_putField (chain : Chain) (hooks : Hooks) (a : Activation) (w : World) (s : State)
    (hi : i.opcode = .putField) (hm : i.member? = some m) :
    (∃ e, execute chain hooks i a w s = .error e s) ∨
    ∃ v id fields t a', v.fits t = true ∧ fieldType m.descriptor = .ok t ∧
      a.stack.values = v :: .ref id :: a'.stack.values ∧ s.heap.fields? id = some fields ∧
      execute chain hooks i a w s =
        .ok (.advance, a') { s with heap := s.heap.edit View.record id (·.put m.name v) } := by
  simp only [execute, executeSimple, hi, member, hm, pure_bind, bind_assoc]
  rw [bind_apply, liftStack_apply]
  cases hpop : OperandStack.pop a.stack with
  | error => exact .inl ⟨_, rfl⟩
  | ok v stack =>
    dsimp only
    rw [bind_apply, liftExcept_apply]
    cases ht : fieldType m.descriptor with
    | error => exact .inl ⟨_, rfl⟩
    | ok t =>
      dsimp only
      rw [bind_apply, liftExcept_apply]
      cases hu : v.asType t Opcode.putField.mnemonic with
      | error => exact .inl ⟨_, rfl⟩
      | ok u =>
        dsimp only
        obtain ⟨rfl, hfits⟩ := Value.asType_ok hu
        rw [bind_apply, liftStack_apply]
        cases hr : OperandStack.popReference Opcode.putField.mnemonic stack with
        | error => exact .inl ⟨_, rfl⟩
        | ok receiver stack' =>
          dsimp only
          rw [bind_apply, lift_apply, Exec.onHeap_modify]
          cases he : Heap.editing View.record receiver (·.put m.name u) s.heap with
          | error => exact .inl ⟨_, rfl⟩
          | ok p =>
            obtain ⟨id, fields, rfl, hfields, hp⟩ := Heap.editing_record he
            refine .inr ⟨u, id, fields, t, { a with stack := stack' }, hfits, rfl, ?_, hfields, ?_⟩
            · rw [OperandStack.pop_ok hpop, OperandStack.popReference_ok hr]
            · dsimp only
              rw [hp]
              rfl

/-- An instruction that fails when it takes effect has written to no field. -/
theorem changes_effect_error {e : Stop} {t : State} {stack stack' : OperandStack}
    (hn : intent i stack = .ok n stack') (hx : effect chain i v n a w s = .error e t) : s.Changes False t := by
  by_cases hw : i.Writes
  · -- whatever the reason, the state is still the one before
    suffices h : t = s by
      subst h
      exact .refl t
    cases n with
    | plain =>
      obtain ⟨hplain, -⟩ := intended hn
      obtain hi | hi := hw
      · have hm := hplain.member (.inr (.inl hi))
        simp only [effect, execute, executeSimple, hi, member, hm] at hx
        cases hx
        rfl
      · cases hm : i.member? with
        | none =>
          simp only [effect, execute, executeSimple, hi, member, hm] at hx
          cases hx
          rfl
        | some m =>
          obtain ⟨e', he⟩ | ⟨_, _, _, _, _, -, -, -, -, hok⟩ :=
            execute_putField chain .idle a w s hi hm
          · cases he.symm.trans hx
            rfl
          · cases hok.symm.trans hx
    | storeStatic m u =>
      rw [effect_storeStatic] at hx
      obtain ⟨p, hp⟩ | ⟨e', he⟩ := resolveStatic_apply m w s
      · rw [hp] at hx
        cases hx
      · rw [he] at hx
        cases hx
        rfl
    | loadStatic m =>
      obtain ⟨hi, -⟩ := intended hn
      obtain h | h := hw <;> cases hi.symm.trans h
    | create className =>
      obtain ⟨hi, -⟩ := intended hn
      obtain h | h := hw <;> cases hi.symm.trans h
    | call c returns =>
      obtain ⟨_, hi, -⟩ := intended hn
      obtain h | h := hw <;> cases hi.symm.trans h
  · exact (changes_effect hw hn a).of_error hx

end Step

end Jvm
