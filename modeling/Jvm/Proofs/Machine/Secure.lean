import Jvm.Proofs.Machine.OrderlyCalls
import Jvm.Proofs.Machine.Places
import Jvm.Proofs.Machine.Simulation

/-!
# What a run keeps

Wherever a run of the standard chain ends, with a result or without, the state meets what it met before, no
object is gone and the same methods run (`State.Reaches`). It ends early only in a way that is admitted, and its
result is a reference that was issued. `Exec.Secure` says so of an action from all such states.

An orderly action is secure if the calls and set-ups that it makes are (`Exec.Orderly.secure`), and these are
secure with one unit of fuel less (`Demands.secured_all`). So the induction on the fuel knows nothing of single
instructions or natives: frames are looked at only where a method is entered, and there they are put back.
-/

namespace Jvm

open Exec (Anything)

variable {E : Demands} {n : Nat}

/-- The second state still meets what is asked, and holds at least the objects of the first one, with the same
methods running. -/
structure State.Reaches (E : Demands) (s s' : State) : Prop where
  meets : s'.Meets E
  size : s.heap.size ≤ s'.heap.size
  frames : s'.frames = s.frames

namespace State

variable {s s' s'' : State}

theorem Meets.reaches (hs : s.Meets E) : s.Reaches E s := ⟨hs, Nat.le_refl _, rfl⟩

theorem Reaches.trans (h : s.Reaches E s') (h' : s'.Reaches E s'') : s.Reaches E s'' :=
  ⟨h'.meets, Nat.le_trans h.size h'.size, h'.frames.trans h.frames⟩

/-- Nothing is asked of the methods that run, of the set-ups that have begun or of what was counted. -/
theorem Meets.of_eq (hs : s.Meets E) (hheap : s'.heap = s.heap) (hstatics : s'.statics = s.statics) : s'.Meets E := by
  refine ⟨fun hh => ⟨?_, ?_⟩, ?_⟩
  · rw [hheap, hstatics]
    exact (hs.issued hh).statics
  · rw [hheap]
    exact (hs.issued hh).heap
  · rw [hheap]
    exact hs.reads

end State

namespace Exec

/-- What is asked of the end of an action. -/
def Ends (E : Demands) {α : Type} (P : Nat → α → Prop) (s : State) : EStateM.Result Stop State α → Prop
  | .ok a s' => P s'.heap.size a ∧ s.Reaches E s'
  | .error e s' => E.Admits e ∧ s.Reaches E s'

/-- What ends as is asked from a state ends so from all states before it. -/
theorem Ends.of_reaches {α : Type} {P : Nat → α → Prop} {s s' : State} {r : EStateM.Result Stop State α}
    (h : Ends E P s' r) (hs : ∀ t, s'.Reaches E t → s.Reaches E t) : Ends E P s r := by
  cases r with
  | ok a t => exact ⟨h.1, hs t h.2⟩
  | error e t => exact ⟨h.1, hs t h.2⟩

/-- From every state with so many objects, the action ends as is asked. -/
def Secure (E : Demands) (n : Nat) {α : Type} (P : Nat → α → Prop) (x : Exec α) : Prop :=
  ∀ w s, E.Knows w → s.Meets E → n ≤ s.heap.size → Ends E P s (x w s)

namespace Secure

variable {α β : Type} {P : Nat → α → Prop} {Q : Nat → β → Prop} {x : Exec α}

theorem pure {a : α} (ha : ∀ k, n ≤ k → P k a) : Secure E n P (Pure.pure a) :=
  fun _ s _ hs hn => ⟨ha s.heap.size hn, hs.reaches⟩

theorem stop {e : Stop} (he : E.Admits e) : Secure E n P (throw e) := fun _ _ _ hs _ => ⟨he, hs.reaches⟩

theorem fail {f : Fault} (hf : E.handles → f.isInternal = false) : Secure E n P (Exec.fail f) := stop hf

theorem cutOff : Secure E n P (throw .outOfFuel) := stop trivial

theorem raise {k : Nat} (h : Secure E n P x) (hk : n ≤ k) : Secure E k P x :=
  fun w s hw hs hn => h w s hw hs (Nat.le_trans hk hn)

theorem weaken {P' : Nat → α → Prop} (h : Secure E n P x) (hP : ∀ k a, n ≤ k → P k a → P' k a) :
    Secure E n P' x := by
  intro w s hw hs hn
  have hx := h w s hw hs hn
  cases hres : x w s with
  | ok a s' =>
    rw [hres] at hx
    exact ⟨hP _ a (Nat.le_trans hn hx.2.size) hx.1, hx.2⟩
  | error e s' =>
    rw [hres] at hx
    exact hx

theorem bind {f : α → Exec β} (hx : Secure E n P x) (hf : ∀ k a, n ≤ k → P k a → Secure E k Q (f a)) :
    Secure E n Q (x >>= f) := by
  intro w s hw hs hn
  have hx := hx w s hw hs hn
  rw [bind_apply]
  cases hres : x w s with
  | error e s' =>
    rw [hres] at hx
    exact hx
  | ok a s' =>
    rw [hres] at hx
    obtain ⟨ha, hreaches⟩ := hx
    have hf := hf s'.heap.size a (Nat.le_trans hn hreaches.size) ha w s' hw hreaches.meets (Nat.le_refl _)
    exact hf.of_reaches fun t ht => hreaches.trans ht

theorem map {f : α → β} (hx : Secure E n P x) (hf : ∀ k a, n ≤ k → P k a → Q k (f a)) :
    Secure E n Q (x >>= fun a => Pure.pure (f a)) := by
  intro w s hw hs hn
  have hx := hx w s hw hs hn
  rw [bind_apply]
  cases hres : x w s with
  | error e s' =>
    rw [hres] at hx
    exact hx
  | ok a s' =>
    rw [hres] at hx
    exact ⟨hf _ a (Nat.le_trans hn hx.2.size) hx.1, hx.2⟩

theorem next {f : α → Exec β} (hx : Secure E n P x) (hf : ∀ a, Secure E n Q (f a)) : Secure E n Q (x >>= f) :=
  hx.bind fun _ a hk _ => (hf a).raise hk

theorem ofMild {r : Except Fault α} (hr : Mild r) (hP : ∀ a, r = .ok a → ∀ k, n ≤ k → P k a) :
    Secure E n P (liftM r : Exec α) := by
  cases r with
  | ok a => exact pure (hP a rfl)
  | error f => exact fail fun _ => hr f rfl

/-- The search for a static field takes nothing away, and it ends as a search does. -/
theorem findStatic (d : ClassDictionary) (m : MemberRef) (fuel : Nat) (owner : String) :
    Secure E n Anything (Step.findStatic d m fuel owner) := by
  induction fuel generalizing owner with
  | zero => exact cutOff
  | succ fuel ih =>
    rw [Step.findStatic]
    split
    · exact fail fun _ => rfl
    split
    · exact pure fun _ _ => trivial
    · exact ih _
    · exact fail fun _ => rfl

theorem ofHeap {f : Heap → Except Fault (α × Heap)} (hx : x.OnHeap f) (hf : Heap.Orderly E n P f) :
    Secure E n P x := by
  intro w s _ hs hn
  rw [hx]
  cases hres : f s.heap with
  | error e => exact ⟨fun hh => hf.error s.heap hn hh e hres, hs.reaches⟩
  | ok p =>
    obtain ⟨ha, hheap, hsize⟩ := hf.ok s.heap p.1 p.2 hs.heap hn hres
    exact ⟨ha, hs.withHeap hheap hsize, hsize, rfl⟩

theorem putStatic (owner name : String) {v : Value} (hv : E.Issues n v) :
    Secure E n Anything (modifyThe State (·.putStatic owner name v)) := by
  intro w s _ hs hn
  have hmeets : (s.putStatic owner name v).Meets E :=
    ⟨fun hh => (hs.issued hh).putStatic owner name ((hv hh).mono hn), hs.reads⟩
  exact ⟨trivial, hmeets, Nat.le_refl _, rfl⟩

/-- An action that changes nothing but what a state counts and notes. -/
theorem after {x : Exec Unit} (h : ∀ w s, (∃ e, x w s = .error e s ∧ E.Admits e) ∨
    ∃ s', x w s = .ok () s' ∧ s'.heap = s.heap ∧ s'.statics = s.statics ∧ s'.frames = s.frames) :
    Secure E n Anything x := by
  intro w s _ hs hn
  rcases h w s with ⟨e, hx, he⟩ | ⟨s', hx, hheap, hstatics, hframes⟩
  · rw [hx]
    exact ⟨he, hs.reaches⟩
  · rw [hx]
    exact ⟨trivial, hs.of_eq hheap hstatics, hheap ▸ Nat.le_refl _, hframes⟩

theorem tick : Secure E n Anything Exec.tick := by
  refine after fun w s => ?_
  rw [tick_apply]
  split
  · exact .inl ⟨_, rfl, fun _ => rfl⟩
  · exact .inr ⟨_, rfl, rfl, rfl, rfl⟩

theorem withFrame (owner name : String) (line : Int32) (hx : Secure E n P x) :
    Secure E n P (Exec.withFrame owner name line x) := by
  intro w s hw hs hn
  rw [withFrame_apply, pushFrame_apply]
  by_cases hdepth : w.limits.callDepth ≤ s.frames.length
  · rw [if_pos hdepth]
    exact ⟨fun _ => rfl, hs.reaches⟩
  rw [if_neg hdepth]
  have hentered : State.Meets E { s with frames := CallFrame.ofMethod owner name line :: s.frames } :=
    hs.of_eq rfl rfl
  have hx := hx w _ hw hentered hn
  dsimp only
  cases hres : x w { s with frames := CallFrame.ofMethod owner name line :: s.frames } with
  | ok a u =>
    rw [hres] at hx
    obtain ⟨ha, hreaches⟩ := hx
    -- the frame on top is the one that was put there
    dsimp only
    rw [popFrame_apply, hreaches.frames]
    exact ⟨ha, hreaches.meets.of_eq rfl rfl, hreaches.size, rfl⟩
  | error e u =>
    rw [hres] at hx
    obtain ⟨he, hreaches⟩ := hx
    refine ⟨he, hreaches.meets.of_eq rfl rfl, hreaches.size, ?_⟩
    dsimp only
    rw [hreaches.frames]
    rfl

end Secure

end Exec

/-- The calls and set-ups that are relied on are secure. -/
structure Surroundings.Trusted (E : Surroundings) : Prop where
  calls : ∀ n x, E.calls n x → Exec.Secure E.toDemands n E.Issues x
  setUps : ∀ x, E.setUps x → Exec.Secure E.toDemands 0 Anything x

namespace Exec

variable {E : Surroundings} {α : Type} {P : Nat → α → Prop} {x : Exec α}

theorem Orderly.secure (h : Orderly E n P x) (hE : E.Trusted) : Secure E.toDemands n P x := by
  induction h with
  | pure ha => exact .pure ha
  | fail hf => exact .fail hf
  | refuse he => exact .stop he
  | bind _ _ ihx ihf => exact ihx.bind ihf
  | weaken _ hP ih => exact ih.weaken hP
  | raise _ hk ih => exact ih.raise hk
  | world _ _ ih => exact fun w s hw hs hn => ih w hw w s hw hs hn
  | get _ _ ih => exact fun w s hw hs hn => ih s hs hn w s hw hs (Nat.le_refl _)
  | framed _ ih =>
    intro w s hw hs hn
    rw [framed_apply]
    split
    · exact ⟨fun _ => rfl, hs.reaches⟩
    · exact ih s.frames w s hw hs hn
  | ofHeap hx hf => exact .ofHeap hx hf
  | clock => exact fun w s _ hs _ => ⟨trivial, hs.of_eq rfl rfl, Nat.le_refl _, rfl⟩
  | putStatic owner name hv => exact .putStatic owner name hv
  | resolveStatic f => exact fun w s hw hs hn => Secure.findStatic w.program f w.fuel f.owner w s hw hs hn
  | call h => exact hE.calls _ _ h
  | setUp h => exact (hE.setUps _ h).raise (Nat.zero_le _)

end Exec

namespace Step

/-- From every activation whose references were issued, the step ends as is asked, with such an activation. -/
def Secure (E : Demands) (n : Nat) {α : Type} (P : Nat → α → Prop) (m : Step α) : Prop :=
  ∀ k a, n ≤ k → (E.handles → a.Issued k) →
    Exec.Secure E k (fun j p => P j p.1 ∧ (E.handles → p.2.Issued j)) (m a)

theorem Orderly.secure {E : Surroundings} {α : Type} {P : Nat → α → Prop} {m : Step α} (h : Orderly E n P m)
    (hE : E.Trusted) : Secure E.toDemands n P m := by
  induction h with
  | pure hx => exact fun k a hk ha => .pure fun j hj => ⟨hx j (Nat.le_trans hk hj), fun hh => (ha hh).mono hj⟩
  | bind _ _ ihm ihf =>
    intro k a hk ha
    refine (ihm k a hk ha).bind fun j p hj hp => ?_
    exact ihf j p.1 (Nat.le_trans hk hj) hp.1 j p.2 (Nat.le_refl _) hp.2
  | raise _ hk ih => exact fun j a hj ha => ih j a (Nat.le_trans hk hj) ha
  | lift hx =>
    intro k a hk ha
    exact ((hx.secure hE).raise hk).map fun j x hj hx => ⟨hx, fun hh => (ha hh).mono hj⟩
  | @liftStack _ _ _ m hm =>
    intro k a hk ha w s _ hs hn
    have hleaves := (hm s.heap.size a.stack (Nat.le_trans hk hn) fun hh => ((ha hh).mono hn).stack).1
    rw [liftStack_apply]
    cases hres : m a.stack with
    | ok x stack =>
      rw [hres] at hleaves
      exact ⟨⟨hleaves.1, fun hh => ⟨hleaves.2 hh, ((ha hh).mono hn).locals⟩⟩, hs.reaches⟩
    | error f stack =>
      rw [hres] at hleaves
      exact ⟨fun _ => hleaves, hs.reaches⟩
  | world _ _ ih => exact fun k a hk ha w s hw hs hn => ih w hw k a hk ha w s hw hs hn
  | get _ _ ih => exact fun k a hk ha => ih k a hk (fun hh => (ha hh).locals) k a (Nat.le_refl _) ha
  | locals hl =>
    refine fun k a hk ha => .pure fun j hj => ⟨trivial, fun hh => ?_⟩
    exact ⟨(ha hh).stack.mono hj, (hl hh).mono (Nat.le_trans hk hj)⟩

end Step

/-! ### Runs -/

namespace Demands

variable {fuel : Nat}

def secured (E : Demands) : Surroundings :=
  { E with
    calls := fun n x => Exec.Secure E n E.Issues x
    setUps := fun x => Exec.Secure E 0 Anything x }

theorem trusted_secured (E : Demands) : E.secured.Trusted := ⟨fun _ _ h => h, fun _ h => h⟩

/-- With some fuel, all that runs is secure. -/
structure Secured (E : Demands) (fuel : Nat) : Prop where
  run : ∀ n owner m code pc a, (E.handles → a.Issued n) →
    Exec.Secure E n E.Issues (Chain.standard.run owner m code fuel pc a)
  execute : ∀ n owner m arguments receiver, m.Entered E n arguments receiver →
    Exec.Secure E n E.Issues (Chain.standard.executeWithin fuel owner m arguments receiver)
  initClass : ∀ name, Exec.Secure E 0 Anything (Chain.standard.initClassWithin fuel name)
  invoke : ∀ n c, c.Proper E n → Exec.Secure E n E.Issues (Chain.standard.invokeWithin fuel c)

theorem Secured.zero : E.Secured 0 where
  run _ _ _ _ _ _ _ := by
    rw [Chain.run]
    exact .cutOff
  execute _ _ _ _ _ _ := by
    rw [Chain.executeWithin]
    exact .cutOff
  initClass _ := by
    rw [Chain.initClassWithin]
    exact .cutOff
  invoke _ _ _ := by
    rw [Chain.invokeWithin]
    exact .cutOff

namespace Secured

variable (h : E.Secured fuel)

include h

theorem orderly_hooks : Hooks.Orderly E.secured (Chain.standard.hooks fuel) := ⟨h.invoke, h.initClass⟩

theorem answering : Answering E.secured (Chain.standard.executeWithin fuel) (Chain.standard.invokeWithin fuel) :=
  ⟨h.execute, h.invoke⟩

/-- An instruction ends with an activation whose references were issued, as it began with one. -/
theorem secure_perform (i : Instruction) (a : Activation) (ha : E.handles → a.Issued n) :
    Exec.Secure E n (fun k p => p.1.Meets E k ∧ (E.handles → p.2.Issued k))
      (Chain.standard.perform (Chain.standard.hooks fuel) i a) :=
  Exec.Secure.tick.bind fun k _ hk _ =>
    (Step.orderly_execute h.orderly_hooks).secure E.trusted_secured k a hk fun hh => (ha hh).mono hk

theorem secure_run (n : Nat) (owner : ClassFile) (m : Method) (code : Array Instruction) (pc : Nat) (a : Activation)
    (ha : E.handles → a.Issued n) :
    Exec.Secure E n E.Issues (Chain.standard.run owner m code (fuel + 1) pc a) := by
  intro w s hw hs hn
  rw [Chain.run_apply]
  cases hi : code[pc]? with
  | none => exact ⟨fun _ => rfl, hs.reaches⟩
  | some i =>
    have hx := h.secure_perform i a ha w s hw hs hn
    dsimp only
    cases hres : Chain.standard.perform (Chain.standard.hooks fuel) i a w s with
    | error e s' =>
      rw [hres] at hx
      exact hx
    | ok p s' =>
      rw [hres] at hx
      obtain ⟨next, a'⟩ := p
      obtain ⟨⟨hnext, ha'⟩, hreaches⟩ := hx
      have hrun : ∀ pc, Exec.Ends E E.Issues s (Chain.standard.run owner m code fuel pc a' w s') := by
        intro pc
        have hrest := h.run s'.heap.size owner m code pc a' ha' w s' hw hreaches.meets (Nat.le_refl _)
        exact hrest.of_reaches fun t ht => hreaches.trans ht
      cases next with
      | advance => exact hrun _
      | jump target =>
        dsimp only
        split
        · exact hrun _
        · exact ⟨fun _ => rfl, hreaches⟩
      | finish v => exact ⟨hnext, hreaches⟩

/-- A method that is entered runs with the references that it was given. -/
theorem secure_enter (owner : ClassFile) (m : Method) (d : MethodDescriptor) (code : Array Instruction)
    (arguments : List Value) (receiver : Option Value) (harguments : ∀ v ∈ arguments, E.Issues n v)
    (hreceiver : ∀ v ∈ receiver, E.Issues n v) :
    Exec.Secure E n E.Issues (do
      let a ← Activation.enter (← read).limits.stackDepth m d arguments receiver
      Chain.standard.run owner m code fuel 0 a) := by
  refine Exec.Secure.bind (P := Anything) (fun w s _ hs _ => ⟨trivial, hs.reaches⟩) fun k w hk _ => ?_
  have henter := Activation.mild_enter w.limits.stackDepth m d arguments receiver
  refine (Exec.Secure.ofMild (P := fun j a => E.handles → a.Issued j) henter fun a ha j hj hh => ?_).bind
    fun j a _ ha => h.run j owner m code 0 a ha
  have hle : n ≤ j := Nat.le_trans hk hj
  exact Activation.issued_enter (fun v hv => (harguments v hv hh).mono hle)
    (fun v hv => (hreceiver v hv hh).mono hle) ha

theorem secure_execute (n : Nat) (owner : ClassFile) (m : Method) (arguments : List Value) (receiver : Option Value)
    (hm : m.Entered E n arguments receiver) :
    Exec.Secure E n E.Issues (Chain.standard.executeWithin (fuel + 1) owner m arguments receiver) := by
  rw [Chain.executeWithin]
  cases hbody : m.body with
  | none => exact .fail fun hh => absurd (hm.body hh) (by rw [hbody]; exact Bool.false_ne_true)
  | some body =>
    dsimp only
    refine Exec.Secure.bind (P := fun _ d => MethodDescriptor.parse m.descriptor = .ok d) ?_ fun k d hk hd => ?_
    · exact .ofMild (Step.mild_methodType _) fun d hd _ _ => Step.parse_of_methodType hd
    split
    · rename_i hlength
      exact .fail fun hh => absurd (hm.length hh d hd) hlength
    exact .withFrame _ _ _ (h.secure_enter owner m d _ arguments receiver (fun v hv => (hm.arguments v hv).mono hk)
      fun v hv => (hm.receiver v hv).mono hk)

theorem secure_initAbove (c : ClassFile) : Exec.Secure E 0 Anything (Chain.standard.initAbove fuel c) := by
  unfold Chain.initAbove
  split
  · exact h.initClass _
  · exact .pure fun _ _ => trivial

theorem secure_initSelf (c : ClassFile) : Exec.Secure E 0 Anything (Chain.standard.initSelf fuel c) := by
  unfold Chain.initSelf
  split
  · rename_i m hm
    obtain ⟨hmethod, hbody⟩ := Option.filter_eq_some_iff.1 hm
    -- an initializer is found by its descriptor, which has no parameters
    have hdescriptor : m.descriptor = "()V" := by
      have hname := List.find?_some hmethod
      simp only [Bool.and_eq_true, beq_iff_eq] at hname
      exact hname.2
    have hentered : m.Entered E 0 [] none := by
      refine ⟨fun _ => hbody, fun _ d hd => ?_, fun v hv => (List.not_mem_nil hv).elim, fun v hv => ?_⟩
      · rw [hdescriptor] at hd
        cases hd
        rfl
      · cases hv
    exact (h.execute 0 c m [] none hentered).next fun _ => .pure fun _ _ => trivial
  · exact .pure fun _ _ => trivial

theorem secure_initClass (name : String) :
    Exec.Secure E 0 Anything (Chain.standard.initClassWithin (fuel + 1) name) := by
  intro w s hw hs hn
  rw [Chain.initClassWithin_apply]
  cases w.program.get? name with
  | none => exact ⟨trivial, hs.reaches⟩
  | some c =>
    dsimp only
    by_cases hname : name ∈ s.started
    · rw [if_pos hname]
      exact ⟨trivial, hs.reaches⟩
    rw [if_neg hname]
    have hstarted : State.Meets E { s with started := name :: s.started } := hs.of_eq rfl rfl
    -- that it has begun is noted before anything else is done
    have hx := (h.secure_initAbove c).next (fun _ => h.secure_initSelf c) w _ hw hstarted hn
    exact hx.of_reaches fun t ht => ⟨ht.meets, ht.size, ht.frames⟩

theorem secure_invoke (n : Nat) (c : Call) (hc : c.Proper E n) :
    Exec.Secure E n E.Issues (Chain.standard.invokeWithin (fuel + 1) c) := by
  rw [Chain.invokeWithin]
  refine ((Chain.orderly_resolveWith h.answering hc).secure E.trusted_secured).bind fun k r _ hr => ?_
  split
  · exact .pure fun j hj => (hr _ rfl).mono hj
  · exact .fail fun _ => rfl

end Secured

theorem secured_all (E : Demands) (fuel : Nat) : E.Secured fuel := by
  induction fuel with
  | zero => exact .zero
  | succ fuel ih => exact ⟨ih.secure_run, ih.secure_execute, ih.secure_initClass, ih.secure_invoke⟩

/-! ### Nothing asked -/

/-- Neither references nor descriptors matter. -/
def free : Demands := ⟨False, fun _ => True⟩

theorem knows_free (w : World) : free.Knows w := ⟨fun _ _ _ _ _ _ _ => trivial, fun _ _ _ _ _ _ _ => trivial⟩

theorem meets_free (s : State) : s.Meets free :=
  ⟨False.elim, fun id p _ => by cases p <;> first | trivial | exact fun _ _ => trivial⟩

theorem entered_free (m : Method) (arguments : List Value) (receiver : Option Value) :
    m.Entered free 0 arguments receiver := ⟨False.elim, False.elim, fun _ _ => False.elim, fun _ _ => False.elim⟩

end Demands

end Jvm
