import Jvm.Proofs.Machine.SetupOrder

/-!
# Classes are set up before they are used

An instruction with a class of its own takes effect where that class has been set up: what it does from then on
is what it does where classes need no set-up (`Chain.Ends.of_use`). Together with the order in which the codes of
classes begin, this holds throughout the life of a machine (`Chain.session_setsUpInOrder`), whatever circles the
superclasses form and whatever the codes of the classes do in between.
-/

namespace Jvm

open Relation (TransGen)

/-- The class that an instruction has set up before it takes effect: that of a static member, or the one of which
an object is made. -/
def Instruction.named? (i : Instruction) : Option String :=
  match i.opcode with
  | .getStatic | .putStatic | .invoke .static => i.member?.map (·.owner)
  | .new =>
    match i.operand with
    | .classRef name => some name
    | _ => none
  | _ => none

namespace Step

variable {i : Instruction} {n : Intent} {stack stack' : OperandStack}

theorem Alone.named? (hp : Alone i) : i.named? = none := by
  unfold Instruction.named?
  split
  · rw [hp.member (.inl ‹_›)]
    rfl
  · rw [hp.member (.inr (.inl ‹_›))]
    rfl
  · rw [hp.member (.inr (.inr ⟨_, ‹_›⟩))]
    rfl
  · split
    · exact absurd ‹_› (hp.className ‹_› _)
    · rfl
  · rfl

/-- An intent names the class of its instruction. -/
theorem owner?_of_intent (hn : intent i stack = .ok n stack') : n.owner? = i.named? := by
  have hi := intended hn
  cases n with
  | plain => exact hi.1.named?.symm
  | loadStatic m =>
    obtain ⟨hopcode, hm, -⟩ := hi
    simp only [Intent.owner?, Instruction.named?, hopcode, hm, Option.map_some]
  | storeStatic m v =>
    obtain ⟨hopcode, hm, -⟩ := hi
    simp only [Intent.owner?, Instruction.named?, hopcode, hm, Option.map_some]
  | create className =>
    obtain ⟨hopcode, hc, -⟩ := hi
    simp only [Intent.owner?, Instruction.named?, hopcode, hc]
  | call c returns =>
    obtain ⟨kind, hopcode, hm, rfl⟩ := hi
    cases hk : c.kind <;> simp [Intent.owner?, Instruction.named?, hopcode, hm, hk]

end Step

/-- An instruction with a class either does nothing, because its operands are missing or the class could not be
set up, or takes effect from where the class is set up. -/
theorem Ends.of_use {chain : Chain} {w : World} {i : Instruction} {a : Activation} {L : List Moment} {s t : State}
    {r : Except Stop (Next × Activation)} {name : String} (h : Ends chain w i a L s r t)
    (hname : i.named? = some name) :
    ((∃ e, r = .error e) ∧ t = s ∧ ∃ L' e, L = L' ++ [⟨e, s⟩] ∧ (e = .begins i a ∨ e = .fails name)) ∨
    ∃ L' u M m, L = L' ++ ⟨.uses name, u⟩ :: M ∧
      (Step.execute chain ⟨chain.invokeWithin m, fun _ => pure ()⟩ i a).outcome w u = (r, t) := by
  -- from there on, the call is the only thing to be waited for
  have heffect {n : Intent} {stack : OperandStack} {m : Nat} {u : State} (hn : Step.intent i a.stack = .ok n stack) :
      Step.execute chain ⟨chain.invokeWithin m, fun _ => pure ()⟩ i a w u =
        (n.ask (chain.hooks m) >>= fun v => Step.effect chain i v n { a with stack }) w u := by
    have hset : n.setUp ⟨chain.invokeWithin m, fun _ => pure ()⟩ = pure () := by
      unfold Intent.setUp
      cases n.owner? <;> rfl
    rw [Step.execute_eq, hn]
    dsimp only
    have hask : n.ask ⟨chain.invokeWithin m, fun _ => pure ()⟩ = n.ask (chain.hooks m) := rfl
    rw [Step.fulfil_apply, hset, Exec.pure_apply, hask, Exec.bind_apply]
    dsimp only
    cases n.ask (chain.hooks m) w u <;> rfl
  cases h with
  | operands hn => exact .inl ⟨⟨_, rfl⟩, rfl, _, _, rfl, .inl rfl⟩
  | setUp hn ho =>
    obtain rfl := Option.some.inj ((Step.owner?_of_intent hn ▸ ho).symm.trans hname)
    exact .inl ⟨⟨_, rfl⟩, rfl, _, _, rfl, .inr rfl⟩
  | call hn _ hused =>
    obtain ⟨L', m, u, hL, hask⟩ := hused name ((Step.owner?_of_intent hn).trans hname)
    refine .inr ⟨L', u, _, m, hL, Exec.outcome_of_error ?_⟩
    rw [heffect hn, Exec.bind_apply, Exec.error_of_outcome hask]
  | effect hn hused _ hx =>
    obtain ⟨L', m, u, hL, hask⟩ := hused name ((Step.owner?_of_intent hn).trans hname)
    refine .inr ⟨L', u, _, m, hL, ?_⟩
    rw [← hx, Exec.outcome, heffect hn, Exec.bind_apply, Exec.ok_of_outcome hask]
    rfl

namespace Chain

variable {chain : Chain} {w : World} {L : List Moment}

/-- The class that an instruction uses is noted; and an instruction with a class of the program that has been
executed did nothing, or took effect where the class was noted. -/
def UsesNoted (chain : Chain) (w : World) : List Moment → Prop :=
  AtEach fun K m =>
    (∀ name, m.event = .uses name → w.program.contains name = true → name ∈ m.state.started) ∧
    ∀ i a r name, m.event = .executed i a r → i.named? = some name → w.program.contains name = true →
      ((∃ e, r = .error e) ∧ ∃ K' e, K = K' ++ [⟨e, m.state⟩] ∧ (e = .begins i a ∨ e = .fails name)) ∨
      ∃ K' u M n, K = K' ++ ⟨.uses name, u⟩ :: M ∧ name ∈ u.started ∧
        (Step.execute chain ⟨chain.invokeWithin n, fun _ => pure ()⟩ i a).outcome w u = (r, m.state)

theorem tracks_usesNoted (hchain : chain.Ordinary) : Tracks chain w fun L _ => UsesNoted chain w L where
  changed hL _ := hL
  noted _ hL := hL
  told e he hL := by
    refine hL.concat ⟨fun name hname => ?_, fun i a r name hi => ?_⟩
    · cases hname
      cases he
    · cases hi
      cases he
  uses hx hL := by
    refine hL.concat ⟨fun name hname hc => ?_, fun i a r name hi => by cases hi⟩
    cases hname
    exact started_of_initClass hchain hx hc
  executed := by
    rintro L s t i a r hx hL
    refine hL.concat ⟨fun name hname => (by cases hname), fun i' a' r' name hi hname hc => ?_⟩
    cases hi
    obtain ⟨herror, rfl, hbefore⟩ | ⟨L', u, M, n, rfl, hout⟩ := hx.of_use hname
    · exact .inl ⟨herror, hbefore⟩
    · refine .inr ⟨L', u, M, n, rfl, ?_, hout⟩
      exact (hL L' ⟨.uses name, u⟩ ⟨M, by rw [List.append_assoc]; rfl⟩).1 name rfl hc

/-- Classes are set up in order: the code of each begins once at most, and where it begins, the classes above are
noted and have come to their end, unless a call for their set-up is going on; and no instruction takes effect
before its class has been noted. -/
structure SetsUpInOrder (chain : Chain) (w : World) (L : List Moment) : Prop where
  once : ∀ name, times (Event.isStart name) L ≤ 1
  above : w.program.Ordered L
  before : UsesNoted chain w L

/-- Whatever the machine is asked for, it sets up classes in order. -/
theorem session_setsUpInOrder (w : World) (tasks : List (Nat × Task)) :
    SetsUpInOrder standard w (standard.session w tasks (.start w.limits)) := by
  obtain ⟨t, hcourse⟩ := course_session (w := w) ordinary_standard tasks [] (.start w.limits)
  obtain ⟨_, hused⟩ := (tracks_usesNoted ordinary_standard).session (w := w) ordinary_standard tasks
    (s := .start w.limits) .nil
  refine ⟨fun name => ?_, ?_, hused⟩
  · have := hcourse.marks name
    have := t.marked_le name
    omega
  · refine (hcourse.sound ⟨fun _ => Nat.le_refl 0, ?_, ?_, .nil⟩).ordered
    · exact fun _ _ hname => absurd hname List.not_mem_nil
    · exact fun _ _ hname => absurd hname List.not_mem_nil

/-- Two classes with code that are above each other. -/
def circleWorld : World :=
  let code : Method := ⟨"<clinit>", "()V", 8, some ⟨#[⟨.voidReturn, .none⟩], 0⟩⟩
  ⟨⟨[⟨"First", some "Second", [], 0, 0, [], [code]⟩, ⟨"Second", some "First", [], 0, 0, [], [code]⟩]⟩,
    .standard, none, [], .still 0⟩

example : ["First", "Second"].map (fun name => times (Event.isStart name)
    (standard.session circleWorld [(9, .initClass "First"), (9, .initClass "Second")] (.start .standard))) =
      [1, 1] := by
  decide +kernel

end Chain

end Jvm
