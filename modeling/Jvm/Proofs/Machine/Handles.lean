import Jvm.Proofs.Machine.Secure

/-!
# References stay good

From a state in which every reference was issued, a method that has code and gets as many arguments as it has
parameters keeps to issued references wherever it comes (`issued_visits`) and leaves such a state behind. So it
ends in no fault of the machine itself (`execute_issued`): such a fault means that a reference was never issued,
that a frame or an argument was missing, or that no provider answered a comparison or a check of a type.

The last two are true only of references, since a provider answers for nothing else. They are all that an
instruction can compare or check, because it takes what it compares from the stack as references.
-/

namespace Jvm

namespace Demands

/-- References were issued; descriptors do not matter. -/
def issued : Demands := ⟨True, fun _ => True⟩

theorem knows_issued (w : World) : issued.Knows w :=
  ⟨fun _ _ _ _ _ _ _ => trivial, fun _ _ _ _ _ _ _ => trivial⟩

theorem meets_issued_iff {s : State} : s.Meets issued ↔ s.Issued := by
  refine ⟨fun h => h.issued trivial, fun h => ⟨fun _ => h, fun id p _ => ?_⟩⟩
  cases p <;> first | trivial | exact fun _ _ => trivial

end Demands

namespace Chain

variable {w : World} {s : State} {owner : ClassFile} {m : Method} {b : MethodBody} {arguments : List Value}
  {receiver : Option Value} {fuel : Nat} {q r : Point}

/-- One instruction keeps to issued references. -/
theorem issued_moves {code : Array Instruction} (h : standard.Moves w code q r) (hs : q.state.Issued)
    (ha : q.activation.Issued q.state.heap.size) :
    r.state.Issued ∧ r.activation.Issued r.state.heap.size := by
  have hperform : ∀ {fuel i a next a'} {s s' : State}, s.Issued → a.Issued s.heap.size →
      standard.perform (standard.hooks fuel) i a w s = .ok (next, a') s' → s'.Issued ∧ a'.Issued s'.heap.size := by
    intro fuel i a next a' s s' hs ha hx
    have hends := (Demands.secured_all .issued fuel).secure_perform i a (fun _ => ha) w s (Demands.knows_issued w)
      (Demands.meets_issued_iff.2 hs) (Nat.le_refl _)
    rw [hx] at hends
    exact ⟨Demands.meets_issued_iff.1 hends.2.meets, hends.1.2 trivial⟩
  cases h with
  | advance _ hx => exact hperform hs ha hx
  | jump _ hx _ => exact hperform hs ha hx

theorem issued_visits (hs : s.Issued) (harguments : ∀ v ∈ arguments, v.Issued s.heap.size)
    (hreceiver : ∀ v ∈ receiver, v.Issued s.heap.size)
    (h : Visits standard w owner m b arguments receiver fuel s q) :
    q.state.Issued ∧ q.activation.Issued q.state.heap.size := by
  induction h with
  | enter _ _ hpush henter =>
    rw [Exec.pushFrame_apply] at hpush
    split at hpush <;> cases hpush
    exact ⟨⟨hs.statics, hs.heap⟩, Activation.issued_enter harguments hreceiver henter⟩
  | move _ hmove ih =>
    obtain ⟨hq, ha⟩ := ih hs harguments hreceiver
    exact issued_moves hmove hq ha

/-- A method with code and with the arguments that it declares, executed where all references were issued, never
ends in an internal fault, and all references were issued afterwards, too. -/
theorem execute_issued (hs : s.Issued) (hbody : m.body.isSome = true)
    (hlength : ∀ d, MethodDescriptor.parse m.descriptor = .ok d → arguments.length = d.parameters.length)
    (harguments : ∀ v ∈ arguments, v.Issued s.heap.size) (hreceiver : ∀ v ∈ receiver, v.Issued s.heap.size)
    (fuel : Nat) :
    (∀ v s', standard.executeWithin fuel owner m arguments receiver w s = .ok v s' →
      s'.Issued ∧ v.Issued s'.heap.size) ∧
    ∀ e s', standard.executeWithin fuel owner m arguments receiver w s = .error e s' →
      s'.Issued ∧ ∀ f, e = .error (.emulation f) → f.isInternal = false := by
  have hentered : m.Entered .issued s.heap.size arguments receiver :=
    ⟨fun _ => hbody, fun _ => hlength, fun v hv _ => harguments v hv, fun v hv _ => hreceiver v hv⟩
  have hends := (Demands.secured_all .issued fuel).execute s.heap.size owner m arguments receiver hentered w s
    (Demands.knows_issued w) (Demands.meets_issued_iff.2 hs) (Nat.le_refl _)
  refine ⟨fun v s' hv => ?_, fun e s' he => ?_⟩
  · rw [hv] at hends
    exact ⟨Demands.meets_issued_iff.1 hends.2.meets, hends.1 trivial⟩
  · rw [he] at hends
    refine ⟨Demands.meets_issued_iff.1 hends.2.meets, ?_⟩
    rintro f rfl
    exact hends.1 trivial

/-- Returns the text that it is given. -/
def echo : Method :=
  ⟨"echo", "(Ljava/lang/String;)Ljava/lang/String;", 8, some ⟨#[⟨.load .ref, .slot 0⟩, ⟨.valueReturn .ref, .none⟩], 1⟩⟩

def echoClass : ClassFile := ⟨"Echo", none, [], 0, 0, [], [echo]⟩

def echoWorld : World := ⟨⟨[echoClass]⟩, .standard, none, [], .still 0⟩

/-- A state with one text. -/
def echoState : State :=
  { State.start .standard with heap := ((Heap.empty 9).push "java/lang/String" (some (.string [97]))).2 }

theorem execute_issued_echo : ∃ v s', standard.executeWithin 9 echoClass echo [.ref 0] none echoWorld echoState =
    .ok v s' ∧ v = .ref 0 ∧ s'.Issued ∧ v.Issued s'.heap.size := by
  have hs : echoState.Issued := by
    refine ⟨fun e he => (List.not_mem_nil he).elim, (Heap.issued_empty 9).push _ fun q hq => ?_⟩
    cases hq
    trivial
  have hlength : ∀ d, MethodDescriptor.parse echo.descriptor = .ok d → [Value.ref 0].length = d.parameters.length := by
    intro d hd
    cases hd
    rfl
  have hissued : ∀ v ∈ [Value.ref 0], v.Issued echoState.heap.size := by
    intro v hv
    rw [List.mem_singleton.1 hv]
    exact Value.issued_ref.2 (by decide)
  obtain ⟨s', hres⟩ : ∃ s', standard.executeWithin 9 echoClass echo [.ref 0] none echoWorld echoState =
      .ok (.ref 0) s' := ⟨_, rfl⟩
  have hreceiver : ∀ v ∈ (none : Option Value), v.Issued echoState.heap.size := fun v hv => by cases hv
  exact ⟨.ref 0, s', hres, rfl, (execute_issued hs rfl hlength hissued hreceiver 9).1 _ _ hres⟩

end Chain

end Jvm
