import Jvm.Proofs.Machine.Fuel
import Jvm.Proofs.Machine.Metered
import Jvm.Proofs.Machine.Places

/-!
# The limit of instructions

No method that is executed counts more instructions than the limit allows, whatever it calls and whatever is
set up, and with whatever fuel (`steps_execute_le`). Whether it comes to an end is another matter, since two
things go on without any instruction: the search for a static field in a circle of superclasses without it
(`executeWithin_unsettled`), and calls by reflection of the method for such calls, with arguments that hold
themselves (`invokeWithin_endless`). Where the program does neither (`World.Bounded`), the method ends
(`exists_execute`): its result is the same for all fuel from `World.fuel` on. Elsewhere this fuel still tells
the methods that end from the others, since what is cut off with it is cut off with any (`executeWithin_unending`).
-/

namespace Jvm

/-- The state in which an action ends, whether it succeeds or fails. -/
def Exec.final {α : Type} (x : Exec α) (w : World) (s : State) : State :=
  match x w s with
  | .ok _ s' => s'
  | .error _ s' => s'

/-- Neither the program, nor the method that is executed, nor the objects make anything go on without
instructions that are counted. -/
structure World.Bounded (w : World) (s : State) (m : Method) : Prop where
  /-- No method of the program is the one by which methods are called by reflection. -/
  program : ∀ owner c, w.program.get? owner = some c → ∀ m ∈ c.methods,
    ¬ Library.IsInvoker owner (m.name ++ m.descriptor)
  /-- No object stands for that method. -/
  objects : ∀ id o, s.heap.contents? id = some (.method o) →
    ¬ Library.IsInvoker o.member.owner o.member.signature
  /-- The searches of the program for static fields settle. -/
  settled : ∀ owner c, w.program.get? owner = some c → ∀ m ∈ c.methods, m.Settled w.program
  /-- And so do those of the method. -/
  entered : m.Settled w.program

/-- There is enough fuel for all that is left of the limits. -/
theorem World.budget_lt_fuel {w : World} (hn : w.limits.instructions ≠ 0) (s : State) :
    w.budget s * w.pace < w.fuel := by
  have hbudget : w.budget s ≤ w.limits.instructionBound + w.limits.callDepth := by
    simp only [World.budget, Limits.instructionBound, if_neg hn]
    omega
  have hpace : w.pace ≤ w.limits.heapObjects + w.program.size + 8 := by
    simp only [World.pace]
    omega
  have hle := Nat.mul_le_mul hbudget hpace
  have hfuel : w.fuel = (w.limits.instructionBound + w.limits.callDepth) *
      (w.limits.heapObjects + w.program.size + 8) + 2 * (w.limits.heapObjects + w.program.size + 8) :=
    Nat.add_mul ..
  omega

namespace Chain

variable {w : World} {s : State} {owner : ClassFile} {m : Method} {arguments : List Value}
  {receiver : Option Value}

/-! ### Methods that are executed -/

theorem steps_execute_le (hn : w.limits.instructions ≠ 0) (fuel : Nat) :
    ((standard.executeWithin fuel owner m arguments receiver).final w s).steps ≤
      max s.steps w.limits.instructions.toNat := by
  let M : Meter := ⟨w, False, False, hn, nofun⟩
  have hexecute := (M.level ordinary_standard (le_refl fuel)).execute owner m arguments receiver (M.searches_any id) s
    nofun ⟨M.fits_any id s.heap, nofun⟩
  unfold Exec.final
  cases hres : standard.executeWithin fuel owner m arguments receiver w s with
  | ok v s' =>
    simp only [M, hres] at hexecute
    exact hexecute.2.2.2.charged
  | error e s' =>
    simp only [M, hres] at hexecute
    exact hexecute.1

/-- A bounded method comes to a result, which is the same for all fuel that is enough. -/
theorem exists_execute (hn : w.limits.instructions ≠ 0) (h : w.Bounded s m) :
    ∃ r, (∀ s', r ≠ .error .outOfFuel s') ∧
      ∀ fuel, w.fuel ≤ fuel → standard.executeWithin fuel owner m arguments receiver w s = r := by
  let M : Meter :=
    ⟨w, True, True, hn, fun _ owner c hc m hm => ⟨h.program owner c hc m hm, h.settled owner c hc m hm⟩⟩
  have hm : m.Searches M.premises.searches := fun b hb i hi f hf _ => h.entered b hb i hi f hf
  have hfits : s.heap.Fits M.premises := by
    refine ⟨fun id p hp => ?_, nofun⟩
    cases p with
    | method o => exact fun _ => h.objects id o hp
    | array a => exact nofun
    | _ => trivial
  have hexecute := (M.level ordinary_standard (le_refl w.fuel)).execute owner m arguments receiver hm s
    (fun _ => World.budget_lt_fuel hn s) ⟨hfits, fun _ hends => absurd trivial hends⟩
  have hends : ∀ s', standard.executeWithin w.fuel owner m arguments receiver w s ≠ .error .outOfFuel s' := by
    intro s' hres
    simp only [M, hres] at hexecute
    exact (hexecute.2 trivial trivial).1 trivial
  exact ⟨_, hends, fun fuel hfuel => executeWithin_eq ordinary_standard hfuel hends⟩

/-- A method that is cut off with the fuel of the world is cut off with any fuel: it does not end. -/
theorem executeWithin_unending (hn : w.limits.instructions ≠ 0) (hproper : s.heap.Proper)
    (hlimit : s.heap.limit = w.limits.heapObjects) {t : State}
    (hcut : standard.executeWithin w.fuel owner m arguments receiver w s = .error .outOfFuel t) (fuel : Nat) :
    ∃ t', standard.executeWithin fuel owner m arguments receiver w s = .error .outOfFuel t' := by
  rcases Nat.le_total fuel w.fuel with hle | hle
  · exact exists_executeWithin_outOfFuel ordinary_standard hle hcut
  let M : Meter := ⟨w, True, False, hn, nofun⟩
  have hexecute := (M.level ordinary_standard hle).execute owner m arguments receiver (M.searches_any id) s
    (fun _ => World.budget_lt_fuel hn s) ⟨M.fits_any id s.heap, fun _ _ => ⟨hproper, hlimit⟩⟩
  simp only [M, hcut] at hexecute
  exact (hexecute.2 trivial trivial).2

/-- A method that is executed with a limit of instructions counts no more of them, and where it is bounded, it
ends. No search for the names above one and no check of a type is cut off. -/
theorem execute_within_limits (hn : w.limits.instructions ≠ 0) :
    (∀ fuel, ((standard.executeWithin fuel owner m arguments receiver).final w s).steps ≤
      max s.steps w.limits.instructions.toNat) ∧
    (w.Bounded s m → ∃ r, (∀ s', r ≠ .error .outOfFuel s') ∧
      ∀ fuel, w.fuel ≤ fuel → standard.executeWithin fuel owner m arguments receiver w s = r) ∧
    (∀ name fuel, w.program.searchFuel ≤ fuel → w.program.search fuel [name] [] = w.program.ancestors name) ∧
    ∀ name target fuel, name.length < fuel →
      w.program.assignableWithin fuel name target = w.program.isAssignable name target :=
  ⟨steps_execute_le hn, exists_execute hn, fun _ _ => ClassDictionary.search_ancestors,
    fun _ _ _ => ClassDictionary.assignableWithin_isAssignable⟩

/-- Loads a static field by way of the second of two classes. -/
def loading (field : String) : Method :=
  ⟨"main", "()I", 8, some ⟨#[⟨.getStatic, .field ⟨"Second", field, "I"⟩⟩, ⟨.valueReturn .int, .none⟩], 0⟩⟩

def loadingClass (field : String) : ClassFile := ⟨"Loading", none, [], 0, 0, [], [loading field]⟩

/-- Two classes above each other, of which the first one has a static field, and the class that loads one. -/
def ring (field : String) : ClassDictionary :=
  ⟨[⟨"First", some "Second", [], 0, 0, [⟨"x", "I", 8, some (.int 7)⟩], []⟩, loadingClass field,
    ⟨"Second", some "First", ["Second"], 0, 0, [], []⟩]⟩

def ringWorld (field : String) : World := ⟨ring field, .standard, none, [], .still 0⟩

theorem method_ring {field name : String} {c : ClassFile} {m : Method} (hc : (ring field).get? name = some c)
    (hm : m ∈ c.methods) : name = "Loading" ∧ m = loading field := by
  obtain ⟨hmem, rfl⟩ := ClassDictionary.name_of_get? hc
  simp only [ring, List.mem_cons, List.not_mem_nil, or_false] at hmem
  obtain rfl | rfl | rfl := hmem
  · cases hm
  · exact ⟨rfl, List.mem_singleton.1 hm⟩
  · cases hm

theorem settled_loading : (loading "x").Settled (ring "x") := by
  intro b hb i hi f hf
  cases hb
  have hfields : ∀ i ∈ #[⟨.getStatic, .field ⟨"Second", "x", "I"⟩⟩, ⟨.valueReturn .int, .none⟩],
      ∀ f, Instruction.staticField? i = some f → f = ⟨"Second", "x", "I"⟩ := by
    simp [Instruction.staticField?, Instruction.member?]
  have hfirst : (ring "x").Settles "x" "First" := .found rfl rfl
  rw [hfields i hi f hf]
  exact .above rfl rfl hfirst

theorem bounded_ring : (ringWorld "x").Bounded (.start .standard) (loading "x") := by
  refine ⟨fun owner c hc m hm => ?_, nofun, fun owner c hc m hm => ?_, settled_loading⟩
  · obtain ⟨rfl, rfl⟩ := method_ring hc hm
    exact fun h => absurd h.1 (by decide)
  · obtain ⟨rfl, rfl⟩ := method_ring hc hm
    exact settled_loading

theorem execute_within_limits_ring : (ringWorld "x").limits.instructions ≠ 0 ∧
    (∀ fuel, ((standard.executeWithin fuel (loadingClass "x") (loading "x") [] none).final (ringWorld "x")
      (.start .standard)).steps ≤ 10000000) ∧
    (ringWorld "x").Bounded (.start .standard) (loading "x") ∧
    ∃ r, (∀ s', r ≠ .error .outOfFuel s') ∧ ∀ fuel, (ringWorld "x").fuel ≤ fuel →
      standard.executeWithin fuel (loadingClass "x") (loading "x") [] none (ringWorld "x") (.start .standard) = r := by
  obtain ⟨hsteps, hends, -⟩ := @execute_within_limits (ringWorld "x") (.start .standard) (loadingClass "x")
    (loading "x") [] none (by decide)
  exact ⟨by decide, hsteps, bounded_ring, hends bounded_ring⟩

/-! ### Searches for static fields that go on without end -/

section Unsettled

variable {b : MethodBody} {d : MethodDescriptor} {a : Activation} {f : MemberRef}

/-- An instruction that loads a static field is cut off in the search for it, if that does not settle. -/
theorem perform_unsettled {chain : Chain} {fuel : Nat} (hf : ¬ w.program.Settles f.name f.owner)
    (hidle : w.program.Idle f.owner) (hsteps : s.steps < w.limits.instructions.toNat)
    (hfuel : (w.program.waiting s.started).length < fuel) :
    ∃ t, chain.perform (chain.hooks fuel) ⟨.getStatic, .field f⟩ a w s = .error .outOfFuel t := by
  let u : State := { s with steps := s.steps + 1 }
  obtain ⟨t, hinit, -⟩ : ∃ t, (chain.hooks fuel).initClass f.owner w u = .ok () t ∧ _ :=
    idle_initClassWithin (s := u) hidle hfuel
  have hload : Step.getStatic (chain.hooks fuel) f w u = .error .outOfFuel t := by
    rw [Step.getStatic, Exec.bind_apply, hinit]
    dsimp only
    rw [Exec.bind_apply, Step.resolveStatic, Exec.bind_apply, Exec.read_apply]
    dsimp only
    rw [ClassDictionary.findStatic_of_not_settles hf, Exec.throw_apply]
  have hmember : Step.member ⟨.getStatic, .field f⟩ = pure f := rfl
  refine ⟨t, ?_⟩
  rw [perform_apply, if_neg (by omega)]
  change Step.execute chain (chain.hooks fuel) _ a w u = _
  simp only [Step.execute, Step.executeSimple, hmember, Step.bind_apply, Step.pure_apply, Step.lift_apply, hload]

/-- So a method that begins with it does not come to an end, whatever the fuel. -/
theorem executeWithin_unsettled (hb : m.body = some b) (hi : b.instructions[0]? = some ⟨.getStatic, .field f⟩)
    (hd : Step.methodType m.descriptor = .ok d) (hlength : arguments.length = d.parameters.length)
    (henter : Activation.enter w.limits.stackDepth m d arguments receiver = .ok a)
    (hdepth : s.frames.length < w.limits.callDepth) (hsteps : s.steps < w.limits.instructions.toNat)
    (hf : ¬ w.program.Settles f.name f.owner) (hidle : w.program.Idle f.owner) (fuel : Nat) :
    ∃ t, standard.executeWithin fuel owner m arguments receiver w s = .error .outOfFuel t := by
  let line := Int32.ofNat owner.poolSize.toNat
  let u : State := { s with frames := CallFrame.ofMethod owner.name m.name line :: s.frames }
  have hpush : Exec.pushFrame owner.name m.name line w s = .ok () u := by
    rw [Exec.pushFrame_apply, if_neg (by omega)]
  -- with this much fuel the field is searched for
  let n := fuel + (w.program.waiting u.started).length + 1
  obtain ⟨t, hperform⟩ : ∃ t, standard.perform (standard.hooks n) ⟨.getStatic, .field f⟩ a w u = .error .outOfFuel t :=
    perform_unsettled hf hidle hsteps (by omega)
  have hcut : standard.executeWithin (n + 2) owner m arguments receiver w s =
      .error .outOfFuel { t with frames := t.frames.drop 1 } := by
    rw [execute_enter hb hd hlength henter, Exec.withFrame_apply, hpush]
    dsimp only
    rw [run_apply, hi]
    dsimp only
    rw [hperform]
  exact exists_executeWithin_outOfFuel ordinary_standard (by omega) hcut

theorem not_settles_ring : ¬ (ring "y").Settles "y" "Second" := fun h =>
  h.not_circle (.tail (.single ⟨_, rfl, rfl, rfl⟩) ⟨_, rfl, rfl, rfl⟩)

theorem idle_ring (field name : String) : (ring field).Idle name := by
  intro above _ c hc
  refine Option.eq_none_iff_forall_ne_some.2 fun m hm => ?_
  obtain ⟨-, rfl⟩ := method_ring hc (ClassFile.mem_of_setup? hm)
  have hname := List.find?_some (Option.filter_eq_some_iff.1 hm).1
  simp [loading] at hname

theorem execute_unsettled_ring : (ringWorld "y").limits.instructions ≠ 0 ∧
    (∀ fuel, ∃ t, standard.executeWithin fuel (loadingClass "y") (loading "y") [] none (ringWorld "y")
      (.start .standard) = .error .outOfFuel t) ∧
    ∀ rounds, Step.findStatic (ring "y") ⟨"Second", "y", "I"⟩ rounds "Second" = throw .outOfFuel := by
  refine ⟨by decide, fun fuel => ?_, fun rounds => ClassDictionary.findStatic_of_not_settles not_settles_ring⟩
  exact executeWithin_unsettled rfl rfl rfl rfl rfl (by decide) (by decide)
    not_settles_ring (idle_ring "y" "Second") fuel

end Unsettled

/-! ### Calls by reflection that go on without end -/

/-- The method for calls by reflection called by reflection itself: on the object that stands for it, with that
object and the array of these arguments. -/
def selfCall (v a : Nat) : Call := .onObject .virtual invoker (.ref v) [.ref v, .ref a]

/-- An object stands for the method of calls by reflection, and an array holds that object and itself. -/
structure SelfHolding (h : Heap) (v a : Nat) : Prop where
  method : ∃ accessible, h.contents? v = some (.method ⟨invoker, accessible⟩)
  arguments : ∃ component, h.contents? a = some (.array (.reference component #[.ref v, .ref a]))

/-- The program does not declare that method as a static one. -/
def Unstatic (w : World) : Prop :=
  ((w.program.get? invoker.owner).bind (·.method? invoker.name invoker.descriptor)).any (·.isStatic) = false

theorem narrow_apply {α : Type} {view : View α} {id : Nat} {p : Payload} {x : α}
    (hp : s.heap.contents? id = some p) (hx : view.read? p = some x) :
    Exec.narrow view (.ref id) w s = .ok x s := by
  rw [Exec.narrow, Exec.readHeap_apply, Heap.narrow, Heap.payload_eq_ok.2 ⟨id, rfl, hp⟩]
  simp only [bind, Except.bind, hx]

theorem methodType_invoker : MethodDescriptor.parse invoker.descriptor =
    .ok ⟨[.object "java/lang/Object", .array (.object "java/lang/Object")], .object "java/lang/Object"⟩ := rfl

variable {v a : Nat}

/-- The call hands on itself. -/
theorem invokeMethod_selfCall (h : SelfHolding s.heap v a) (hw : Unstatic w) :
    Library.invokeMethod (selfCall v a) w s = .ok (.forward (selfCall v a)) s := by
  obtain ⟨⟨accessible, hv⟩, component, ha⟩ := h
  have hthis : (selfCall v a).narrowThis View.method w s = .ok ⟨invoker, accessible⟩ s := narrow_apply hv rfl
  have harguments : (selfCall v a).referencesArgument 1 w s = .ok [.ref v, .ref a] s := by
    have hnarrow : Exec.narrow View.array (.ref a) w s = .ok (.reference component #[.ref v, .ref a]) s :=
      narrow_apply ha rfl
    change (Exec.narrow View.array (.ref a) >>= fun b => liftM b.references) w s = _
    rw [Exec.bind_apply, hnarrow]
    rfl
  have hobjects : ([FieldType.object "java/lang/Object", .array (.object "java/lang/Object")] ++
      [FieldType.object "java/lang/Object"]).find? (fun t => !t.isReference && !t.isVoid) = none := rfl
  rw [Library.invokeMethod, Exec.bind_apply, hthis]
  dsimp only
  rw [Exec.bind_apply, Library.methodTypes, methodType_invoker]
  dsimp only [Exec.ofDescriptor, Exec.pure_apply]
  rw [hobjects]
  dsimp only
  rw [Exec.bind_apply, harguments]
  dsimp only
  rw [if_neg (by simp), Exec.bind_apply, Exec.read_apply]
  dsimp only
  rw [hw]
  rfl

theorem answer_selfCall (h : SelfHolding s.heap v a) (hw : Unstatic w) :
    standard.answer (selfCall v a) w s = .ok (.handOn (selfCall v a)) s := by
  have hprovider : standard.provider? w.program s.heap (selfCall v a) = some (.native Catalog.library) := rfl
  have hfind : Catalog.library.find? (selfCall v a).member.owner (selfCall v a).member.signature = _ := find?_invoker
  rw [answer_apply, hprovider]
  simp only [Provider.answer, hfind, Exec.bind_apply, invokeMethod_selfCall h hw, Exec.pure_apply]

/-- So it is cut off, whatever the fuel, and no instruction has been counted. -/
theorem invokeWithin_endless (h : SelfHolding s.heap v a) (hw : Unstatic w) (fuel : Nat) :
    standard.invokeWithin fuel (selfCall v a) w s = .error .outOfFuel s := by
  refine invokeWithin_unending ordinary_standard (fun n hn => ?_) fuel
  have hself := HandedOn.next (answer_selfCall h hw) hn
  exact absurd (hn.unique hself) (Nat.ne_of_lt (Nat.lt_succ_self n))

end Chain

end Jvm
