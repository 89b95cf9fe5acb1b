import Jvm.Proofs.Machine.Places
import Jvm.Proofs.Machine.Setup
import Jvm.Proofs.Machine.Signatures

/-!
# A method that only calls another one

A relay loads a text, calls a static method with it and returns what that returns. All it does besides the
call is to count its instructions and to need a place on its stack (`execute_relay`), so that it and the
call alone return the same up to the limits (`follows_relayed`, `refines_callText`). The call of a method
of the program executes it (`invokeWithin_own`).
-/

namespace Jvm

/-! ### How the call of a static method is answered -/

namespace ClassDictionary

variable {d : ClassDictionary}

theorem exists_search (d : ClassDictionary) (fuel : Nat) (pending seen : List String) :
    ∃ rest, d.search fuel pending seen = seen.reverse ++ rest := by
  induction fuel generalizing pending seen with
  | zero => exact ⟨[], by rw [search, List.append_nil]⟩
  | succ fuel ih =>
    cases pending with
    | nil => exact ⟨[], by rw [search, List.append_nil]⟩
    | cons name pending =>
      rw [search]
      split
      · exact ih pending seen
      · obtain ⟨rest, hrest⟩ := ih (d.parents name ++ pending) (name :: seen)
        exact ⟨name :: rest, by rw [hrest, List.reverse_cons, List.append_assoc, List.singleton_append]⟩

/-- The search for a method starts at the named class. -/
theorem exists_ancestors (d : ClassDictionary) (name : String) : ∃ rest, d.ancestors name = name :: rest := by
  have hfuel : d.searchFuel = (1 + d.classes.foldr (fun c n => 1 + c.interfaces.length + n) 0) + 1 := by
    rw [searchFuel]
    omega
  obtain ⟨rest, hrest⟩ := d.exists_search (1 + d.classes.foldr (fun c n => 1 + c.interfaces.length + n) 0)
    (d.parents name ++ []) [name]
  exact ⟨rest, by rw [ancestors, hfuel, search, if_neg (by simp), hrest]; rfl⟩

theorem target?_own {call : MemberRef} {arguments : List Value} {r : ClassFile × Nat}
    (h : d.methodWithBody? call.owner call.name call.descriptor = some r) (heap : Heap) :
    d.target? heap (.onClass call arguments) = some r := by
  have hresolve : d.resolveMethod? call.owner call.name call.descriptor = some r := by
    obtain ⟨rest, hrest⟩ := d.exists_ancestors call.owner
    rw [resolveMethod?, hrest, List.findSome?_cons, h]
  have hkind : ¬((Call.onClass call arguments).kind = .virtual ∨ (Call.onClass call arguments).kind = .interface) := by
    rintro (hkind | hkind) <;> cases hkind
  unfold target?
  dsimp only
  rw [if_neg hkind]
  split
  · exact h
  · exact hresolve

end ClassDictionary

namespace Chain

variable {fuel : Nat} {w : World} {s : State} {call : MemberRef} {arguments : List Value} {c : ClassFile}
  {index : Nat} {m : Method}

theorem provider?_own (hdescriptor : call.descriptor = "(Ljava/lang/String;)Ljava/lang/String;")
    (hc : w.program.methodWithBody? call.owner call.name call.descriptor = some (c, index)) :
    standard.provider? w.program s.heap (.onClass call arguments) = some .mapped := by
  have hnative : Provider.canInvoke (.native Catalog.library) w.program s.heap (.onClass call arguments) =
      false := by
    rw [Provider.canInvoke]
    change Catalog.library.contains call.owner (call.name ++ call.descriptor) = false
    rw [hdescriptor]
    exact Library.contains_textToText _ _
  have hmapped : Provider.canInvoke .mapped w.program s.heap (.onClass call arguments) = true := by
    rw [Provider.canInvoke, ClassDictionary.target?_own hc]
    rfl
  have hcomparison : Provider.canInvoke .comparison w.program s.heap (.onClass call arguments) = false := rfl
  simp only [provider?, standard, List.find?_cons, hnative, hcomparison, hmapped]

/-- The call of a static method of the program executes it. -/
theorem invokeWithin_own (hdescriptor : call.descriptor = "(Ljava/lang/String;)Ljava/lang/String;")
    (hc : w.program.methodWithBody? call.owner call.name call.descriptor = some (c, index))
    (hm : c.methods[index]? = some m) (hstatic : m.isStatic = true) :
    invokeWithin standard (fuel + 1) (.onClass call arguments) w s =
      executeWithin standard fuel c m arguments none w s := by
  have hinvoke : ∀ handOn, Provider.invoke .mapped (executeWithin standard fuel) handOn (.onClass call arguments)
      w s = executeWithin standard fuel c m arguments none w s := by
    intro handOn
    rw [Provider.invoke, Exec.bind_apply, Exec.read_apply]
    dsimp only
    rw [Exec.bind_apply, Exec.get_apply]
    dsimp only
    rw [ClassDictionary.target?_own hc]
    dsimp only
    rw [hm]
    dsimp only
    rw [if_pos hstatic]
    rfl
  rw [invokeWithin, Exec.bind_apply, resolveWith, Exec.bind_apply, Exec.read_apply]
  dsimp only
  rw [Exec.bind_apply, Exec.get_apply]
  dsimp only
  rw [provider?_own hdescriptor hc]
  dsimp only
  rw [map_eq_pure_bind, Exec.bind_apply, hinvoke]
  cases executeWithin standard fuel c m arguments none w s <;> rfl

end Chain

/-! ### What a relay does -/

/-- Loads a text, calls a static method with it and returns the result. -/
def relayCode (text : Units) (call : MemberRef) : Array Instruction :=
  #[⟨.ldc, .const (.string text)⟩, ⟨.invoke .static, .method call⟩, ⟨.valueReturn .ref, .none⟩]

/-- A method that passes a text to another one and returns what that returns. -/
def Method.relay (name : String) (text : Units) (call : MemberRef) : Method :=
  ⟨name, "()Ljava/lang/String;", 8, some ⟨relayCode text call, 0⟩⟩

/-- Fails where a stack has no place for anything. -/
def Exec.room (limit : Nat) : Exec Unit := if limit = 0 then fail (.stackOverflow limit) else pure ()

theorem Exec.intern_ref {text : Units} {w : World} {s s' : State} {v : Value}
    (h : Exec.intern text w s = .ok v s') : ∃ id, v = .ref id := by
  rw [Exec.intern, Exec.bind_apply, Exec.get_apply] at h
  dsimp only at h
  cases hid : s.heap.interned? text with
  | some id =>
    simp only [hid] at h
    cases h
    exact ⟨id, rfl⟩
  | none =>
    simp only [hid] at h
    obtain ⟨_, t, -, hpush⟩ := Exec.bind_ok h
    cases hpush
    exact ⟨_, rfl⟩

namespace Chain

/-- The call of a static method with a text. Its class is set up first. -/
def callText (chain : Chain) (fuel : Nat) (text : Units) (call : MemberRef) : Exec Value := do
  let v ← Exec.intern text
  chain.initClassWithin fuel call.owner
  let r ← chain.invokeWithin fuel (.onClass call [v])
  r.asType (.object "java/lang/String") "invoke"

/-- The call as a relay makes it. -/
def relayed (chain : Chain) (limit fuel : Nat) (text : Units) (call : MemberRef) : Exec Value := do
  Exec.tick
  let v ← Exec.intern text
  Exec.room limit
  Exec.tick
  chain.initClassWithin fuel call.owner
  let r ← chain.invokeWithin fuel (.onClass call [v])
  let r ← r.asType (.object "java/lang/String") "invoke"
  Exec.room limit
  Exec.tick
  r.asType (.object "java/lang/String") "areturn"

end Chain

namespace Step

variable {chain : Chain} {hooks : Hooks} {w : World} {s : State} {v : Value} {call : MemberRef} {limit : Nat}

/-- The activation of a relay. -/
def holding (limit : Nat) (vs : List Value) : Activation :=
  ⟨{ limit, values := vs }, .ofCount 0, .object "java/lang/String"⟩

theorem asType_object {name operation : String} (hv : v.isReferenceLike = true) :
    v.asType (.object name) operation = .ok v := if_pos hv

theorem push_holding (hv : v.isReferenceLike = true) : push v (holding limit []) w s =
    (Exec.room limit >>= fun _ => pure ((), holding limit [v])) w s := by
  have hvalue : ¬(v = .void ∨ v = .top) := by rintro (rfl | rfl) <;> cases hv
  rw [push, liftStack_apply, OperandStack.push, if_neg hvalue, Exec.room]
  by_cases hlimit : limit = 0
  · rw [if_pos hlimit, if_pos (by rw [hlimit]; exact Nat.le_refl 0)]
    rfl
  · rw [if_neg hlimit, if_neg (by simpa [holding] using hlimit)]
    rfl

theorem execute_text (text : Units) :
    execute chain hooks ⟨.ldc, .const (.string text)⟩ (holding limit []) =
      (do
        let v ← Exec.intern text
        Exec.room limit
        return holding limit [v]) >>= fun a => pure (.advance, a) := by
  funext w s
  simp only [bind_assoc, pure_bind]
  change (((liftM (Exec.intern text) >>= push) >>= fun _ => pure Next.advance : Step Next) _ w s) = _
  rw [bind_apply, bind_apply, lift_apply, Exec.bind_apply]
  cases hintern : Exec.intern text w s with
  | error => rfl
  | ok v t =>
    obtain ⟨id, rfl⟩ := Exec.intern_ref hintern
    dsimp only
    rw [push_holding rfl, Exec.bind_apply, Exec.bind_apply]
    cases Exec.room limit w t <;> rfl

theorem execute_call (hd : call.descriptor = "(Ljava/lang/String;)Ljava/lang/String;") :
    execute chain hooks ⟨.invoke .static, .method call⟩ (holding limit [v]) =
      (do
        hooks.initClass call.owner
        let r ← hooks.invoke (.onClass call [v])
        let r ← r.asType (.object "java/lang/String") "invoke"
        Exec.room limit
        return holding limit [r]) >>= fun a => pure (.advance, a) := by
  funext w s
  simp only [bind_assoc, pure_bind]
  have htype : methodType call.descriptor =
      .ok ⟨[.object "java/lang/String"], .object "java/lang/String"⟩ := by
    rw [hd]
    rfl
  have hinvoke : invoke hooks .static ⟨.invoke .static, .method call⟩ (holding limit [v]) w s =
      (liftM (hooks.initClass call.owner) >>= fun _ => liftM (hooks.invoke (.onClass call [v])) >>= fun r =>
        liftM (r.asType (.object "java/lang/String") "invoke") >>= push : Step Unit) (holding limit []) w s := by
    have hmember : member ⟨.invoke .static, .method call⟩ = pure call := rfl
    have hpop : OperandStack.popN 1 (holding limit [v]).stack = .ok [v] (holding limit []).stack := rfl
    rw [invoke, hmember, bind_apply, pure_apply]
    dsimp only
    rw [bind_apply, htype, liftExcept_apply]
    dsimp only [List.length_singleton]
    rw [bind_apply, liftStack_apply, hpop]
    rfl
  change ((invoke hooks .static ⟨.invoke .static, .method call⟩ >>= fun _ => pure Next.advance) _ w s) = _
  rw [bind_apply, hinvoke, bind_apply, lift_apply, Exec.bind_apply]
  cases hooks.initClass call.owner w s with
  | error => rfl
  | ok _ t =>
    dsimp only
    rw [bind_apply, lift_apply, Exec.bind_apply]
    cases hooks.invoke (.onClass call [v]) w t with
    | error => rfl
    | ok r u =>
      dsimp only
      rw [bind_apply, liftExcept_apply, Exec.bind_apply, Exec.ofExcept_apply]
      by_cases hr : r.isReferenceLike = true
      · rw [asType_object hr]
        dsimp only
        rw [push_holding hr, Exec.bind_apply, Exec.bind_apply]
        cases Exec.room limit w u <;> rfl
      · have htyped : r.asType (.object "java/lang/String") "invoke" =
            .error (r.mismatch "invoke" (Value.shapeName (.object "java/lang/String"))) := if_neg hr
        rw [htyped]

theorem execute_return : execute chain hooks ⟨.valueReturn .ref, .none⟩ (holding limit [v]) =
    (v.asType (.object "java/lang/String") "areturn" : Exec Value) >>= fun r => pure (.finish r, holding limit []) := by
  funext w s
  change (liftM (v.asType (.object "java/lang/String") "areturn") >>= fun r => pure (.finish r) : Step Next)
    (holding limit []) w s = _
  rw [bind_apply, liftExcept_apply, Exec.bind_apply, Exec.ofExcept_apply]
  cases v.asType (.object "java/lang/String") "areturn" <;> rfl

end Step

namespace Chain

variable {chain : Chain} {owner : ClassFile} {m : Method} {code : Array Instruction} {i : Instruction}
  {name : String} {text : Units} {call : MemberRef} {fuel limit pc : Nat} {a b : Activation}
  {w : World} {s s' s'' t : State}

theorem run_advance {act : Exec Activation} (hi : code[pc]? = some i)
    (hx : Step.execute chain (chain.hooks fuel) i a = act >>= fun b => pure (.advance, b)) :
    chain.run owner m code (fuel + 1) pc a =
      Exec.tick >>= fun _ => act >>= fun b => chain.run owner m code fuel (pc + 1) b := by
  funext w s
  rw [run_apply, hi]
  dsimp only
  rw [perform, hx, Exec.bind_apply, Exec.bind_apply]
  cases Exec.tick w s with
  | error => rfl
  | ok _ s =>
    dsimp only
    rw [Exec.bind_apply, Exec.bind_apply]
    cases act w s <;> rfl

theorem run_finish {act : Exec Value} (hi : code[pc]? = some i)
    (hx : Step.execute chain (chain.hooks fuel) i a = act >>= fun v => pure (.finish v, b)) :
    chain.run owner m code (fuel + 1) pc a = Exec.tick >>= fun _ => act := by
  funext w s
  rw [run_apply, hi]
  dsimp only
  rw [perform, hx, Exec.bind_apply, Exec.bind_apply]
  cases Exec.tick w s with
  | error => rfl
  | ok _ s =>
    dsimp only
    rw [Exec.bind_apply]
    cases act w s <;> rfl

theorem run_relay (hd : call.descriptor = "(Ljava/lang/String;)Ljava/lang/String;") :
    chain.run owner m (relayCode text call) (fuel + 3) 0 (Step.holding limit []) =
      chain.relayed limit (fuel + 1) text call := by
  have hreturn : ∀ r, chain.run owner m (relayCode text call)
      (fuel + 1) 2 (Step.holding limit [r]) = Exec.tick >>= fun _ => r.asType (.object "java/lang/String") "areturn" :=
    fun r => run_finish rfl Step.execute_return
  have hcall : ∀ v, chain.run owner m (relayCode text call)
      (fuel + 2) 1 (Step.holding limit [v]) = Exec.tick >>= fun _ =>
        chain.initClassWithin (fuel + 1) call.owner >>= fun _ =>
        chain.invokeWithin (fuel + 1) (.onClass call [v]) >>= fun r =>
        (r.asType (.object "java/lang/String") "invoke" : Exec Value) >>= fun r => Exec.room limit >>= fun _ =>
        Exec.tick >>= fun _ => r.asType (.object "java/lang/String") "areturn" := by
    intro v
    rw [run_advance rfl (Step.execute_call hd)]
    simp only [bind_assoc, pure_bind, hreturn]
    rfl
  rw [run_advance rfl (Step.execute_text text)]
  simp only [bind_assoc, pure_bind, hcall]
  rfl

theorem isStatic_relay : (Method.relay name text call).isStatic = true := (by decide : Access.isStatic 8 = true)

theorem enter_relay : Activation.enter limit (.relay name text call) ⟨[], .object "java/lang/String"⟩ [] none =
    .ok (Step.holding limit []) := by
  rw [Activation.enter, isStatic_relay]
  rfl

/-- A relay makes the call in a frame of its own. -/
theorem execute_relay (hd : call.descriptor = "(Ljava/lang/String;)Ljava/lang/String;") :
    chain.executeWithin (fuel + 4) owner (.relay name text call) [] none w s =
      Exec.withFrame owner.name name (Int32.ofNat owner.poolSize.toNat)
        (chain.relayed w.limits.stackDepth (fuel + 1) text call) w s := by
  have htype : Step.methodType "()Ljava/lang/String;" = .ok ⟨[], .object "java/lang/String"⟩ := rfl
  have hrun : chain.run owner (.relay name text call) (relayCode text call) (fuel + 3) 0
      (Step.holding w.limits.stackDepth []) = _ := run_relay hd
  rw [← hrun]
  exact execute_enter rfl htype rfl enter_relay

end Chain

/-! ### A relay and the call alone -/

namespace Exec

variable {α : Type} {P : α → Prop} {x y : Exec α} {z : Exec Unit}

/-- The action only counts, if it does not fail. -/
def Counts (z : Exec Unit) : Prop :=
  ∀ w s, (∃ steps, z w s = .ok () { s with steps }) ∨ ∃ e, z w s = .error e s ∧ e.faultKind = some .stepBudget

theorem counts_tick : Counts tick := by
  intro w s
  rw [tick_apply]
  split
  · exact .inr ⟨_, rfl, rfl⟩
  · exact .inl ⟨_, rfl⟩

theorem counts_room (limit : Nat) : Counts (room limit) := by
  intro w s
  rw [room]
  split
  · exact .inr ⟨_, rfl, rfl⟩
  · exact .inl ⟨s.steps, rfl⟩

/-- What is counted before an action makes no difference to those that follow it. -/
theorem Refines.skip (hz : Counts z) (h : Refines P x y) : Refines P (z >>= fun _ => x) y := by
  have ok_of : ∀ {w s a s'}, (z >>= fun _ => x) w s = .ok a s' → ∃ steps, x w { s with steps } = .ok a s' := by
    intro w s a s' hx
    rw [bind_apply] at hx
    obtain ⟨steps, hok⟩ | ⟨e, herror, -⟩ := hz w s
    · rw [hok] at hx
      exact ⟨steps, hx⟩
    · rw [herror] at hx
      cases hx
  refine ⟨fun w s a s' hs hx => ?_, fun w s t a s' ht hs hx => ?_⟩
  · obtain ⟨steps, hx⟩ := ok_of hx
    obtain ⟨ha, hs'⟩ := h.keeps w { s with steps } a s' hs hx
    exact ⟨ha, hs'.sound, hs'.grows, hs'.frames⟩
  · obtain ⟨steps, hx⟩ := ok_of hx
    exact h.follows w { s with steps } t a s' ⟨ht.frames, ht.heap, ht.statics, ht.readings, ht.started, ht.idle⟩ hs hx

theorem Counts.follows (hz : Counts z) {w : World} {s t : State} {d : ClassDictionary} (h : s.Precedes d t) :
    Follows d () s (z w t) := by
  obtain ⟨steps, hok⟩ | ⟨e, herror, he⟩ := hz w t
  · exact .inl ⟨_, hok, h.counted steps⟩
  · exact .inr ⟨e, t, herror, he⟩

theorem Follows.bind {β : Type} {g : α → Exec β} {d : ClassDictionary} {a : α} {b : β} {w : World}
    {s' s'' t : State} (h : Follows d a s' (y w t))
    (hg : ∀ t', s'.Precedes d t' → Follows d b s'' (g a w t')) : Follows d b s'' ((y >>= g) w t) := by
  rw [bind_apply]
  obtain ⟨t', hy, ht'⟩ | ⟨e, t', hy, he⟩ := h
  · rw [hy]
    exact hg t' ht'
  · rw [hy]
    exact .inr ⟨e, t', rfl, he⟩

end Exec

namespace Chain

open Exec (Any Follows)

variable {chain : Chain} {text : Units} {call : MemberRef} {fuel n limit : Nat} {w : World}
  {s s₁ s₂ s₃ : State} {v r : Value}

/-- A relay returns what the call returns. -/
theorem follows_relayed (hs : s.heap.Sound) (hintern : Exec.intern text w s = .ok v s₁)
    (hsetup : ∀ t, s₁.Precedes w.program t → Follows w.program () s₂ (chain.initClassWithin fuel call.owner w t))
    (hinvoke : ∀ t, s₂.Precedes w.program t →
      Follows w.program r s₃ (chain.invokeWithin fuel (.onClass call [v]) w t))
    (hr : r.isReferenceLike = true) : Follows w.program r s₃ (chain.relayed limit fuel text call w s) := by
  have htype : ∀ {operation t}, s₃.Precedes w.program t →
      Follows w.program r s₃ ((liftM (r.asType (.object "java/lang/String") operation) : Exec Value) w t) := by
    intro operation t ht
    rw [Step.asType_object hr]
    exact .inl ⟨t, rfl, ht⟩
  refine .bind (Exec.counts_tick.follows (.refl _ s)) fun t ht => ?_
  refine .bind ((Exec.Refines.intern text).follows w s t v s₁ ht hs hintern) fun t ht => ?_
  refine .bind ((Exec.counts_room limit).follows ht) fun t ht => ?_
  refine .bind (Exec.counts_tick.follows ht) fun t ht => ?_
  refine .bind (hsetup t ht) fun t ht => .bind (hinvoke t ht) fun t ht => .bind (htype ht) fun t ht => ?_
  refine .bind ((Exec.counts_room limit).follows ht) fun t ht => ?_
  exact .bind (Exec.counts_tick.follows ht) fun t ht => htype ht

/-- The call alone returns what a relay returns. -/
theorem refines_callText (hchain : chain.Ordinary) (hfuel : fuel ≤ n) :
    Exec.Refines Any (chain.relayed limit fuel text call) (chain.callText n text call) := by
  have hlevel := level hchain hfuel
  refine .skip Exec.counts_tick ((Exec.Refines.intern text).any.next fun v => ?_)
  refine .skip (Exec.counts_room limit) (.skip Exec.counts_tick ?_)
  refine (hlevel.initClass call.owner).next fun _ => (hlevel.invoke _).next fun r => ?_
  by_cases hr : r.isReferenceLike = true
  · rw [Step.asType_object hr]
    change Exec.Refines Any (Exec.room limit >>= fun _ => Exec.tick >>= fun _ =>
      liftM (r.asType (.object "java/lang/String") "areturn")) (pure r)
    rw [Step.asType_object hr]
    exact .skip (Exec.counts_room limit) (.skip Exec.counts_tick (.value r))
  · have htype : r.asType (.object "java/lang/String") "invoke" =
        .error (r.mismatch "invoke" (Value.shapeName (.object "java/lang/String"))) := if_neg hr
    rw [htype]
    exact .fail (P := Any) _

variable {owner : ClassFile} {name : String} {e : Stop}

/-- A relay returns from the machine what it returns inside its frame, unless a limit was reached. -/
theorem relay_of_follows (hd : call.descriptor = "(Ljava/lang/String;)Ljava/lang/String;")
    (hpush : Exec.pushFrame owner.name name (Int32.ofNat owner.poolSize.toNat) w s = .ok () s₁)
    (h : Follows w.program r s₂ (chain.relayed w.limits.stackDepth (fuel + 1) text call w s₁))
    (hframes : s₂.frames = s₁.frames) :
    (∃ t, chain.executeWithin (fuel + 4) owner (.relay name text call) [] none w s = .ok r t ∧ t.heap = s₂.heap) ∨
      ∃ e t, chain.executeWithin (fuel + 4) owner (.relay name text call) [] none w s = .error e t ∧
        e.faultKind = some .stepBudget := by
  rw [execute_relay hd, Exec.withFrame_apply, hpush]
  rw [Exec.pushFrame_apply] at hpush
  split at hpush <;> cases hpush
  obtain ⟨t, hrun, ht⟩ | ⟨e, t, hrun, he⟩ := h
  · dsimp only
    rw [hrun]
    dsimp only
    rw [Exec.popFrame_apply, ht.frames, hframes]
    exact .inl ⟨_, rfl, ht.heap⟩
  · dsimp only
    rw [hrun]
    exact .inr ⟨e, _, rfl, he⟩

/-- What a relay returned, the call alone returns from where the relay was entered. -/
theorem follows_of_relay (hchain : chain.Ordinary) (hd : call.descriptor = "(Ljava/lang/String;)Ljava/lang/String;")
    (hfuel : fuel ≤ n) (hs : s.heap.Sound)
    (h : chain.executeWithin (fuel + 4) owner (.relay name text call) [] none w s = .ok r s₂) : ∃ s₁ s₃,
      Exec.pushFrame owner.name name (Int32.ofNat owner.poolSize.toNat) w s = .ok () s₁ ∧ s₃.heap = s₂.heap ∧
      Follows w.program r s₃ (chain.callText (n + 1) text call w s₁) := by
  rw [execute_relay hd] at h
  obtain ⟨s₁, s₃, f, hpush, hrun, hpop⟩ := Exec.withFrame_ok h
  refine ⟨s₁, s₃, hpush, ?_, ?_⟩
  · rw [Exec.popFrame_apply] at hpop
    split at hpop <;> cases hpop
    rfl
  · rw [Exec.pushFrame_apply] at hpush
    split at hpush <;> cases hpush
    exact (refines_callText hchain (Nat.succ_le_succ hfuel)).follows w _ _ r s₃ (.refl _ _) hs hrun

end Chain

end Jvm
