import Jvm.Proofs.Machine.History

/-!
# What holds throughout a run

A property of the history so far and the present state holds throughout if the single happenings keep it. It
is enough to look at what an instruction tells (`Endures`), once it is known what the set-up of a class does
to the property: runs, executions and calls are put together from these in one way (`Endures.keep`). Where
the set-up of a class is of no interest, it only notes the class and tells what it does (`Tracks`), and then
the property holds after any tasks (`Tracks.session`). Two kinds of property come about like that: a place has
the value that was stored to it last (`Tracks.latest`), and, given this, instructions end as a law says
(`Tracks.law`).
-/

namespace Jvm

open Exec (Any)

/-- Each moment stands in that relation to what happened before it. -/
def AtEach (P : List Moment → Moment → Prop) (L : List Moment) : Prop := ∀ K m, K ++ [m] <+: L → P K m

namespace AtEach

variable {P : List Moment → Moment → Prop} {L K : List Moment} {m : Moment}

theorem nil : AtEach P [] := fun _ _ hK => absurd (List.prefix_nil.1 hK) (List.concat_ne_nil _ _)

/-- Each moment of a history is one after a part of it. -/
theorem exists_prefix (hm : m ∈ L) : ∃ K, K ++ [m] <+: L := by
  obtain ⟨K, M, rfl⟩ := List.append_of_mem hm
  exact ⟨K, M, by rw [List.append_assoc]; rfl⟩

theorem concat (h : AtEach P L) (hm : P L m) : AtEach P (L ++ [m]) := by
  intro K m' hK
  rcases List.prefix_concat_iff.1 hK with heq | hK
  · obtain ⟨rfl, hlast⟩ := List.append_inj' heq rfl
    cases hlast
    exact hm
  · exact h K m' hK

end AtEach

/-- The value of the last moment that has one, if there is any; `P` says which values a moment has. -/
inductive Latest {α : Type} (P : Moment → α → Prop) : List Moment → Option α → Prop
  | none {L : List Moment} (h : ∀ m ∈ L, ∀ v, ¬ P m v) : Latest P L none
  | some {L M : List Moment} {m : Moment} {v : α} (hm : P m v) (h : ∀ m' ∈ M, ∀ v', ¬ P m' v') :
      Latest P (L ++ m :: M) (some v)

namespace Latest

variable {α : Type} {P Q : Moment → α → Prop} {L : List Moment} {m : Moment} {o : Option α}

theorem concat (h : Latest P L o) (hm : ∀ v, ¬ P m v) : Latest P (L ++ [m]) o := by
  have hlast {M : List Moment} (hM : ∀ m' ∈ M, ∀ v, ¬ P m' v) : ∀ m' ∈ M ++ [m], ∀ v, ¬ P m' v := by
    intro m' hm'
    rcases List.mem_append.1 hm' with hm' | hm'
    · exact hM m' hm'
    · rw [List.mem_singleton.1 hm']
      exact hm
  cases h with
  | none h => exact .none (hlast h)
  | some hv h =>
    rw [List.append_assoc, List.cons_append]
    exact .some hv (hlast h)

theorem put {v : α} (L : List Moment) (hm : P m v) : Latest P (L ++ [m]) (.some v) :=
  .some hm fun _ hm' => absurd hm' List.not_mem_nil

theorem congr (h : Latest P L o) (hPQ : ∀ m ∈ L, ∀ v, P m v ↔ Q m v) : Latest Q L o := by
  cases h with
  | none h => exact .none fun m hm v hv => h m hm v ((hPQ m hm v).2 hv)
  | some hv h =>
    refine .some ((hPQ _ (by simp) _).1 hv) fun m hm v hv' => h m hm v ((hPQ m ?_ v).2 hv')
    exact List.mem_append_right _ (List.mem_cons_of_mem _ hm)

/-- The value is one of a moment. -/
theorem exists_mem {v : α} (h : Latest P L (.some v)) : ∃ m ∈ L, P m v := by
  cases h with
  | some hv _ => exact ⟨_, List.mem_append_right _ (List.mem_cons_self ..), hv⟩

end Latest

namespace Chain

/-- A property of the history so far and the present state that is kept by all that instructions tell. -/
structure Endures (chain : Chain) (w : World) (I : List Moment → State → Prop) : Prop where
  changed : ∀ {L s t}, I L s → s.Changes False t → I L t
  begins : ∀ {L s} i a, I L s → I (L ++ [⟨.begins i a, s⟩]) s
  uses : ∀ {L s s₀ n name}, chain.initClassWithin n name w s₀ = .ok () s → I L s → I (L ++ [⟨.uses name, s⟩]) s
  executed : ∀ {L s t i a r}, Ends chain w i a L s r t → I L s → I (L ++ [⟨.executed i a r, t⟩]) t

/-- The property is kept by what is done with that fuel. -/
def Keeps (chain : Chain) (w : World) (n : Nat) (I : List Moment → State → Prop) : Prop :=
  ∀ L t s, I L s → I (L ++ history chain w n t s) (t.after chain w n s)

/-- The property is kept by what is done with one unit of fuel less than `n`. -/
def KeepsBelow (chain : Chain) (w : World) (n : Nat) (I : List Moment → State → Prop) : Prop :=
  ∀ m, n = m + 1 → Keeps chain w m I

variable {chain : Chain} {w : World} {n : Nat} {I : List Moment → State → Prop} {L : List Moment} {s : State}

/-- A method that is executed runs from where it begins, and its frame is taken off in the end. -/
theorem executeWithin_apply (owner : ClassFile) (m : Method) (arguments : List Value) (receiver : Option Value) :
    executeWithin chain (n + 1) owner m arguments receiver w s =
      match enter owner m arguments receiver w s with
      | .error e t => .error e { t with frames := s.frames }
      | .ok (code, a) t =>
        match chain.run owner m code n 0 a w t with
        | .ok v u =>
          match Exec.popFrame w u with
          | .ok _ u' => .ok v u'
          | .error e u' => .error e u'
        | .error e u => .error e { u with frames := u.frames.drop 1 } := by
  rw [executeWithin, enter]
  cases m.body with
  | none => rfl
  | some b =>
    dsimp only
    rw [Exec.bind_apply, Exec.bind_apply, Exec.ofExcept_apply]
    cases Step.methodType m.descriptor with
    | error => rfl
    | ok d =>
      dsimp only
      split
      · rfl
      rw [Exec.withFrame_apply, Exec.bind_apply]
      cases hp : Exec.pushFrame owner.name m.name (Int32.ofNat owner.poolSize.toNat) w s with
      | error e t =>
        dsimp only
        rw [Exec.pushFrame_apply] at hp
        split at hp <;> cases hp
        rfl
      | ok _ t =>
        dsimp only
        rw [Exec.bind_apply, Exec.bind_apply, Exec.read_apply]
        dsimp only
        rw [Exec.bind_apply, Exec.bind_apply, Exec.ofExcept_apply]
        cases Activation.enter w.limits.stackDepth m d arguments receiver with
        | error f =>
          dsimp only
          rw [Exec.pushFrame_apply] at hp
          split at hp <;> cases hp
          rfl
        | ok a =>
          dsimp only
          rw [Exec.pure_apply]
          dsimp only
          cases chain.run owner m b.instructions n 0 a w t with
          | error => rfl
          | ok v u => cases hpop : Exec.popFrame w u <;> simp only [hpop]

/-- Coming to where a method begins changes the call stack only. -/
theorem changes_enter (owner : ClassFile) (m : Method) (arguments : List Value) (receiver : Option Value) :
    Exec.Changes False Any (enter owner m arguments receiver) := by
  unfold enter
  split
  · exact .failWith _
  refine (Exec.Changes.ofExcept _).bind fun d _ => ?_
  split
  · exact .failWith _
  refine (Exec.Changes.pushFrame _ _ _).bind fun _ _ => Exec.Changes.read.bind fun _ _ => ?_
  exact (Exec.Changes.ofExcept _).bind fun _ _ => .pure trivial

/-- The history of the set-up of a class ends with how it returns. -/
theorem history_initClass (name : String) : ∃ inner, history chain w n (.initClass name) s =
    inner ++ [⟨.ofReturn name ((chain.initClassWithin n name).outcome w s).1,
      (chain.initClassWithin n name).after w s⟩] := by
  cases n <;> exact ⟨_, rfl⟩

/-- How an instruction ends if its operands are there and setting up fails: it has a class, and this is
what could not be set up. -/
theorem ends_setUp {intent : Intent} {i : Instruction} {a : Activation} {stack : OperandStack} {e : Stop} {t : State}
    (hn : Step.intent i a.stack = .ok intent stack) (hs : intent.setUp (chain.hooks n) w s = .error e t)
    (L : List Moment) : Ends chain w i a (L ++ setUpHistory (history chain w n) intent s) t (.error e) t := by
  unfold setUpHistory
  cases ho : intent.owner? with
  | none => rw [Intent.setUp, ho] at hs; cases hs
  | some name =>
    rw [Intent.setUp, ho] at hs
    change chain.initClassWithin n name w s = _ at hs
    obtain ⟨inner, hinner⟩ : ∃ inner, history chain w n (.initClass name) s = inner ++ _ := history_initClass name
    rw [Exec.after_of_error hs, Exec.outcome_of_error hs] at hinner
    dsimp only
    rw [hinner, ← List.append_assoc]
    exact .setUp hn ho

/-- Without a call, nothing has happened since the class was set up. -/
theorem exists_herald {intent : Intent} {t : State} (hs : intent.setUp (chain.hooks n) w s = .ok () t)
    (hc : intent.call? = none) (i : Instruction) (a : Activation) (L : List Moment) :
    ∃ L', L ++ ([⟨.begins i a, s⟩] ++ (setUpHistory (history chain w n) intent s ++
      useHistory (history chain w n) intent t)) = L' ++ [⟨intent.herald i a, t⟩] := by
  cases ho : intent.owner? with
  | some name =>
    refine ⟨L ++ ⟨.begins i a, s⟩ :: setUpHistory (history chain w n) intent s, ?_⟩
    simp only [useHistory, Intent.herald, ho, hc, Option.toList_some, List.map_cons, List.map_nil,
      List.append_nil, List.cons_append, List.nil_append, List.append_assoc]
  | none =>
    have hidle : intent.setUp (chain.hooks n) w s = .ok () s := by rw [Intent.setUp, ho]; rfl
    cases hidle.symm.trans hs
    refine ⟨L, ?_⟩
    simp only [useHistory, setUpHistory, Intent.herald, ho, hc, Option.toList_none, List.map_nil,
      List.append_nil]

/-- An instruction, up to where its class is set up. -/
theorem Keeps.setUp (hsub : Keeps chain w n I) (intent : Intent) (h : I L s) :
    I (L ++ setUpHistory (history chain w n) intent s) ((intent.setUp (chain.hooks n)).after w s) := by
  unfold setUpHistory Intent.setUp
  cases intent.owner? with
  | some name => exact hsub L (.initClass name) s h
  | none => rwa [List.append_nil]

namespace Endures

variable (hI : Endures chain w I)

include hI

theorem tick (h : I L s) : I L (Exec.tick.after w s) := by
  refine hI.changed h ?_
  by_cases hlimit : w.limits.instructions ≠ 0 ∧ w.limits.instructions.toNat ≤ s.steps
  · rw [Exec.after_of_error ((Exec.tick_apply w s).trans (if_pos hlimit))]
    exact .refl s
  · rw [Exec.after_of_ok ((Exec.tick_apply w s).trans (if_neg hlimit))]
    exact ⟨.refl _, fun _ => rfl, rfl⟩

/-- An instruction, from there to where its call has been answered. -/
theorem use (hsub : Keeps chain w n I) (intent : Intent) {s₀ : State}
    (hset : intent.setUp (chain.hooks n) w s₀ = .ok () s) (h : I L s) :
    I (L ++ useHistory (history chain w n) intent s) ((intent.ask (chain.hooks n)).after w s) := by
  have huses : I (L ++ intent.owner?.toList.map fun name => ⟨.uses name, s⟩) s := by
    unfold Intent.setUp at hset
    cases ho : intent.owner? with
    | some name =>
      rw [ho] at hset
      exact hI.uses hset h
    | none => rwa [Option.toList_none, List.map_nil, List.append_nil]
  unfold useHistory Intent.ask
  rw [← List.append_assoc]
  cases intent.call? with
  | some c => exact hsub _ (.invoke c) s huses
  | none => rwa [List.append_nil]

theorem instruction (hsub : Keeps chain w n I) (i : Instruction) (a : Activation) (h : I L s) :
    I (L ++ instructionHistory chain w n (history chain w n) i a s)
      ((Step.execute chain (chain.hooks n) i a).after w s) := by
  -- it is enough to know how the instruction ends after what it tells first
  suffices hends : ∀ r u, (Step.execute chain (chain.hooks n) i a).outcome w s = (r, u) →
      ∃ M t, instructionHistory chain w n (history chain w n) i a s = M ++ [⟨.executed i a r, u⟩] ∧
        Ends chain w i a (L ++ M) t r u ∧ I (L ++ M) t by
    obtain ⟨M, t, hM, hr, ht⟩ := hends _ _ rfl
    rw [hM, ← List.append_assoc]
    exact hI.executed hr ht
  intro r u hx
  have hbegins := hI.begins i a h
  simp only [instructionHistory, Exec.after, hx]
  cases hn : Step.intent i a.stack with
  | error f stack =>
    have herror : Step.execute chain (chain.hooks n) i a w s = .error (.error (.emulation f)) s := by
      rw [Step.execute_eq, hn]
    cases (Exec.outcome_of_error herror).symm.trans hx
    exact ⟨[⟨.begins i a, s⟩], s, rfl, .operands hn, hbegins⟩
  | ok intent stack =>
    have hfulfil : Step.execute chain (chain.hooks n) i a w s =
        Step.fulfil chain (chain.hooks n) i intent { a with stack } w s := by rw [Step.execute_eq, hn]
    rw [Step.fulfil_apply] at hfulfil
    have hset := hsub.setUp intent hbegins
    cases hs : intent.setUp (chain.hooks n) w s with
    | error e t =>
      rw [hs] at hfulfil
      cases (Exec.outcome_of_error hfulfil).symm.trans hx
      rw [Exec.after_of_error hs, List.append_assoc] at hset
      refine ⟨_, u, by simp only [hs, List.append_nil]; rfl, ?_, hset⟩
      rw [← List.append_assoc]
      exact ends_setUp hn hs _
    | ok _ t =>
      rw [hs] at hfulfil
      rw [Exec.after_of_ok hs] at hset
      have huse := hI.use hsub intent hs hset
      have hused {x : Except Stop Value} {u : State} (ha : (intent.ask (chain.hooks n)).outcome w t = (x, u)) :
          intent.Used chain w (L ++ ([⟨.begins i a, s⟩] ++
            (setUpHistory (history chain w n) intent s ++ useHistory (history chain w n) intent t))) x u := by
        intro name ho
        refine ⟨L ++ ⟨.begins i a, s⟩ :: setUpHistory (history chain w n) intent s, n, t, ?_, ha⟩
        simp only [useHistory, ho, Option.toList_some, List.map_cons, List.map_nil, List.append_assoc,
          List.cons_append, List.nil_append]
      simp only [hs] at hfulfil ⊢
      cases ha : intent.ask (chain.hooks n) w t with
      | error e u' =>
        rw [ha] at hfulfil
        cases (Exec.outcome_of_error hfulfil).symm.trans hx
        rw [Exec.after_of_error ha, List.append_assoc, List.append_assoc] at huse
        refine ⟨_, u, rfl, ?_, huse⟩
        cases hc : intent.call? with
        | none => rw [Intent.ask, hc] at ha; cases ha
        | some c => exact .call hn hc (hused (Exec.outcome_of_error ha))
      | ok v u' =>
        rw [ha] at hfulfil
        rw [Exec.after_of_ok ha, List.append_assoc, List.append_assoc] at huse
        have heffect : (Step.effect chain i v intent { a with stack }).outcome w u' = (r, u) := by
          rw [← hx, Exec.outcome, Exec.outcome, hfulfil]
        refine ⟨_, u', rfl, .effect hn (hused (Exec.outcome_of_ok ha)) (fun hc => ?_) heffect, huse⟩
        rw [Intent.ask, hc] at ha
        cases ha
        exact exists_herald hs hc i a L

theorem run (hsub : Keeps chain w n I) (owner : ClassFile) (m : Method) (code : Array Instruction) (pc : Nat)
    (a : Activation) (h : I L s) : I (L ++ parts chain w n (history chain w n) (.run owner m code pc a) s)
      ((chain.run owner m code (n + 1) pc a).after w s) := by
  rw [parts, Exec.after, Exec.outcome, run_apply]
  cases code[pc]? with
  | none =>
    dsimp only
    rwa [List.append_nil]
  | some i =>
    have htick := hI.tick h
    dsimp only
    rw [perform, Exec.bind_apply]
    cases ht : Exec.tick w s with
    | error e t =>
      rw [Exec.after_of_error ht] at htick
      dsimp only
      rwa [List.append_nil]
    | ok _ t =>
      rw [Exec.after_of_ok ht] at htick
      have hi := hI.instruction hsub i a htick
      dsimp only
      rw [runHistory, ← List.append_assoc]
      cases hx : Step.execute chain (chain.hooks n) i a w t with
      | error e u =>
        rw [Exec.after_of_error hx] at hi
        dsimp only
        rwa [List.append_nil]
      | ok p u =>
        rw [Exec.after_of_ok hx] at hi
        obtain ⟨next, a'⟩ := p
        cases next with
        | advance => exact hsub _ (.run owner m code (pc + 1) a') u hi
        | jump target =>
          dsimp only
          split
          · exact hsub _ (.run owner m code target a') u hi
          · rwa [List.append_nil]
        | finish v =>
          dsimp only
          rwa [List.append_nil]

theorem execute (hsub : Keeps chain w n I) (owner : ClassFile) (m : Method) (arguments : List Value)
    (receiver : Option Value) (h : I L s) :
    I (L ++ parts chain w n (history chain w n) (.execute owner m arguments receiver) s)
      ((chain.executeWithin (n + 1) owner m arguments receiver).after w s) := by
  -- the frames may be others in the end
  have hframes {L : List Moment} {t : State} (frames : List CallFrame) (h : I L t) : I L { t with frames } :=
    hI.changed h ⟨.refl _, fun _ => rfl, rfl⟩
  rw [parts, Exec.after, Exec.outcome, executeWithin_apply]
  cases he : enter owner m arguments receiver w s with
  | error e t =>
    dsimp only
    rw [List.append_nil]
    exact hframes _ (hI.changed h ((changes_enter owner m arguments receiver).of_error he))
  | ok p t =>
    obtain ⟨code, a⟩ := p
    have hrun := hsub L (.run owner m code 0 a) t
      (hI.changed h ((changes_enter owner m arguments receiver).of_ok he).2)
    rw [Task.after] at hrun
    dsimp only
    cases hr : chain.run owner m code n 0 a w t with
    | error e u =>
      rw [Exec.after_of_error hr] at hrun
      exact hframes _ hrun
    | ok v u =>
      rw [Exec.after_of_ok hr] at hrun
      dsimp only
      rw [Exec.popFrame_apply]
      cases u.frames with
      | nil => exact hrun
      | cons f frames => exact hframes _ hrun

theorem invoke (hchain : chain.Ordinary) (hsub : Keeps chain w n I) (c : Call) (h : I L s) :
    I (L ++ parts chain w n (history chain w n) (.invoke c) s) ((chain.invokeWithin (n + 1) c).after w s) := by
  rw [parts, Exec.after, Exec.outcome, invokeWithin_eq, Exec.bind_apply]
  cases ha : chain.answer c w s with
  | error e t =>
    dsimp only
    rw [List.append_nil]
    exact hI.changed h ((changes_answer hchain c).of_error ha)
  | ok answer t =>
    have ht := hI.changed h ((changes_answer hchain c).of_ok ha).2
    dsimp only
    cases answer with
    | value v =>
      dsimp only
      rwa [List.append_nil]
    | execute owner m arguments receiver => exact hsub _ (.execute owner m arguments receiver) t ht
    | handOn next =>
      have hnext := hsub _ (.invoke next) t ht
      rw [Task.after] at hnext
      dsimp only
      rw [Answer.fulfil, Exec.bind_apply]
      cases hx : chain.invokeWithin n next w t with
      | error e u =>
        rw [Exec.after_of_error hx] at hnext
        exact hnext
      | ok v u =>
        rw [Exec.after_of_ok hx] at hnext
        cases v <;> exact hnext

theorem intern (text : Units) (h : I L s) : I L ((Exec.intern text).after w s) := by
  have hx := (Exec.Alike.intern (E := Exec.changing False) text).changes
  refine hI.changed h ?_
  cases hi : Exec.intern text w s with
  | ok v t =>
    rw [Exec.after_of_ok hi]
    exact (hx.of_ok hi).2
  | error e t =>
    rw [Exec.after_of_error hi]
    exact hx.of_error hi

/-- Whatever is done but the set-up of a class keeps the property if what it consists of does. -/
theorem keep (hchain : chain.Ordinary) (hsub : KeepsBelow chain w n I) {t : Task} (ht : ∀ name, t ≠ .initClass name)
    (h : I L s) : I (L ++ history chain w n t s) (t.after chain w n s) := by
  have hnil : I (L ++ []) s := by rwa [List.append_nil]
  cases t with
  | initClass name => exact absurd rfl (ht name)
  | intern text => cases n <;> exact hI.intern text hnil
  | run owner m code pc a =>
    cases n with
    | zero => exact hnil
    | succ n => exact hI.run (hsub n rfl) owner m code pc a h
  | execute owner m arguments receiver =>
    cases n with
    | zero => exact hnil
    | succ n => exact hI.execute (hsub n rfl) owner m arguments receiver h
  | invoke c =>
    cases n with
    | zero => exact hnil
    | succ n => exact hI.invoke hchain (hsub n rfl) c h

end Endures

/-! ### What does not depend on the set-up of classes -/

/-- A property of the history so far and the present state that is kept by whatever happens. -/
structure Tracks (chain : Chain) (w : World) (I : List Moment → State → Prop) : Prop where
  changed : ∀ {L s t}, I L s → s.Changes False t → I L t
  noted : ∀ {L s} name, I L s → I L { s with started := name :: s.started }
  told : ∀ {L s} e, e.isPlain = true → I L s → I (L ++ [⟨e, s⟩]) s
  uses : ∀ {L s s₀ n name}, chain.initClassWithin n name w s₀ = .ok () s → I L s → I (L ++ [⟨.uses name, s⟩]) s
  executed : ∀ {L s t i a r}, Ends chain w i a L s r t → I L s → I (L ++ [⟨.executed i a r, t⟩]) t

namespace Tracks

/-- What is stored to a place stays there until something else is: if only executed instructions store to it, and
nothing else changes it, then it has the value that was stored last. -/
theorem latest {α : Type} {P : Moment → α → Prop} {place : State → Option α}
    (hP : ∀ {m v}, P m v → ∃ i a r, m.event = .executed i a r)
    (hchanged : ∀ {s t : State}, s.Changes False t → place t = place s)
    (hnoted : ∀ (s : State) names, place { s with started := names } = place s)
    (hexecuted : ∀ {L s t i a r}, Ends chain w i a L s r t →
      (∃ v, place t = some v ∧ P ⟨.executed i a r, t⟩ v) ∨ place t = place s ∧ ∀ v, ¬ P ⟨.executed i a r, t⟩ v) :
    Tracks chain w fun L s => Latest P L (place s) where
  changed hL hst := by rwa [hchanged hst]
  noted _ hL := by rwa [hnoted]
  told e he hL := by
    refine hL.concat fun v hv => ?_
    obtain ⟨i, a, r, rfl⟩ := hP hv
    cases he
  uses _ hL := by
    refine hL.concat fun v hv => ?_
    obtain ⟨i, a, r, hexecuted⟩ := hP hv
    cases hexecuted
  executed hx hL := by
    obtain ⟨v, hv, hstored⟩ | ⟨hkept, hno⟩ := hexecuted hx
    · rw [hv]
      exact .put _ hstored
    · rw [hkept]
      exact hL.concat hno

theorem all {ι : Sort*} {J : ι → List Moment → State → Prop} (h : ∀ k, Tracks chain w (J k)) :
    Tracks chain w fun L s => ∀ k, J k L s where
  changed hL hst k := (h k).changed (hL k) hst
  noted name hL k := (h k).noted name (hL k)
  told e he hL k := (h k).told e he (hL k)
  uses hx hL k := (h k).uses hx (hL k)
  executed hx hL k := (h k).executed hx (hL k)

/-- What is known of the state makes a law of how instructions end hold throughout. -/
theorem law {P : List Moment → Moment → Prop} (hI : Tracks chain w I)
    (hP : ∀ {K m}, (∀ i a r, m.event ≠ .executed i a r) → P K m)
    (hexecuted : ∀ {L s t i a r}, Ends chain w i a L s r t → I L s → AtEach P L → P L ⟨.executed i a r, t⟩) :
    Tracks chain w fun L s => I L s ∧ AtEach P L where
  changed hL hst := ⟨hI.changed hL.1 hst, hL.2⟩
  noted name hL := ⟨hI.noted name hL.1, hL.2⟩
  told e he hL := ⟨hI.told e he hL.1, hL.2.concat (hP fun i a r heq => by cases heq; cases he)⟩
  uses hx hL := ⟨hI.uses hx hL.1, hL.2.concat (hP fun i a r heq => by cases heq)⟩
  executed hx hL := ⟨hI.executed hx hL.1, hL.2.concat (hexecuted hx hL.1 hL.2)⟩

variable (hI : Tracks chain w I)

include hI

theorem endures : Endures chain w I where
  changed := hI.changed
  begins _ _ h := hI.told _ rfl h
  uses := hI.uses
  executed := hI.executed

theorem initSelf (hsub : Keeps chain w n I) (c : ClassFile) (name : String) (h : I L s) :
    I (L ++ selfHistory chain w n (history chain w n) c name s) ((chain.initSelf n c).after w s) := by
  rw [selfHistory, Exec.after, Exec.outcome, Chain.initSelf]
  cases c.setup? with
  | none =>
    dsimp only
    rwa [List.append_nil]
  | some m =>
    have hself := hsub _ (.execute c m [] none) s (hI.told (.starts name) rfl h)
    rw [Task.after, List.append_assoc, List.singleton_append] at hself
    dsimp only
    rw [Exec.bind_apply, ← List.append_assoc]
    cases hx : chain.executeWithin n c m [] none w s with
    | error e t =>
      rw [Exec.after_of_error hx] at hself
      dsimp only
      rwa [List.append_nil]
    | ok v t =>
      rw [Exec.after_of_ok hx] at hself
      exact hI.told (.completes name) rfl hself

theorem initClass (hsub : Keeps chain w n I) (name : String) (h : I L s) :
    I (L ++ initHistory chain w n (history chain w n) name s) ((chain.initClassWithin (n + 1) name).after w s) := by
  rw [initHistory, Exec.after, Exec.outcome, initClassWithin_apply]
  cases w.program.get? name with
  | none =>
    dsimp only
    rwa [List.append_nil]
  | some c =>
    dsimp only
    by_cases hname : name ∈ s.started
    · rw [if_pos hname, if_pos hname, List.append_nil]
      exact h
    rw [if_neg hname, if_neg hname, Exec.bind_apply, ← List.append_assoc]
    have habove : I (L ++ aboveHistory (history chain w n) c { s with started := name :: s.started })
        ((chain.initAbove n c).after w { s with started := name :: s.started }) := by
      unfold Chain.initAbove aboveHistory
      cases c.superName with
      | some above => exact hsub _ (.initClass above) _ (hI.noted name h)
      | none =>
        dsimp only
        rw [List.append_nil]
        exact hI.noted name h
    cases hx : chain.initAbove n c w { s with started := name :: s.started } with
    | error e t =>
      rw [Exec.after_of_error hx] at habove
      dsimp only
      rwa [List.append_nil]
    | ok _ t =>
      rw [Exec.after_of_ok hx] at habove
      exact hI.initSelf hsub c name habove

/-- The call and the return around the set-up of a class change nothing. -/
theorem enclose {name : String} {inner : List Moment}
    (hinner : ∀ L, I L s → I (L ++ inner) ((chain.initClassWithin n name).after w s)) (h : I L s) :
    I (L ++ Chain.enclose chain w n (.initClass name) s inner) ((chain.initClassWithin n name).after w s) := by
  have hi := hinner _ (hI.told (.asks name) rfl h)
  rw [Chain.enclose, ← List.append_assoc]
  rw [List.append_assoc, List.singleton_append] at hi
  exact hI.told _ (by cases ((chain.initClassWithin n name).outcome w s).1 <;> rfl) hi

theorem keeps (hchain : chain.Ordinary) (n : Nat) : Keeps chain w n I := by
  induction n with
  | zero =>
    intro L t s h
    cases t with
    | initClass name => exact hI.enclose (fun L h => by rw [List.append_nil]; exact h) h
    | _ => exact hI.endures.keep hchain (fun m hm => by cases hm) (fun _ hx => by cases hx) h
  | succ n ih =>
    intro L t s h
    cases t with
    | initClass name => exact hI.enclose (fun L h => hI.initClass ih name h) h
    | _ => exact hI.endures.keep hchain (fun m hm => by cases hm; exact ih) (fun _ hx => by cases hx) h

/-- What is kept by whatever happens holds after any tasks if it held before. -/
theorem session (hchain : chain.Ordinary) (tasks : List (Nat × Task)) (h : I L s) :
    ∃ t, I (L ++ Chain.session chain w tasks s) t := by
  induction tasks generalizing L s with
  | nil => exact ⟨s, by rwa [Chain.session, List.append_nil]⟩
  | cons task rest ih =>
    obtain ⟨n, t⟩ := task
    have hdone := hI.told .closes rfl (hI.keeps hchain n _ t s (hI.told .opens rfl h))
    obtain ⟨u, hu⟩ := ih hdone
    refine ⟨u, ?_⟩
    rw [Chain.session]
    simpa only [List.append_assoc, List.cons_append, List.nil_append] using hu

end Tracks

end Chain

end Jvm
