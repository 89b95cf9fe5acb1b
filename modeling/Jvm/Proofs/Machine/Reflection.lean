import Jvm.Proofs.Machine.Budget
import Jvm.Proofs.Machine.Replies

/-!
# Calls by reflection

A call of a static method by reflection makes the same call of the method as the instruction `invokestatic`, but
the instruction sets up the class of the method before (`callStatic_apply`, `invokeWithin_reflective`). So the two
come to the same from any state in which that set-up has begun, and in general the instruction comes to what the
call by reflection comes to from the state that the set-up leaves (`reflection_agrees`). From the state before it,
they need not (`reflection_before_setUp`): a class may be used by reflection without ever being set up.

The instruction checks the type of the value that the call returns, and reflection does not. This makes no
difference, as the value is of that type whoever answers the call (`fits_invokeWithin`).
-/

namespace Jvm

namespace OperandStack

theorem popN_apply {stack : OperandStack} {arguments rest : List Value}
    (h : stack.values = arguments.reverse ++ rest) : ∃ below, popN arguments.length stack = .ok arguments below ∧
      below.values = rest ∧ below.limit = stack.limit := by
  have hdepth : ¬ stack.depth < arguments.length := by simp [stack.depth_eq, h]
  have htake : (stack.values.take arguments.length).reverse = arguments := by
    rw [h, List.take_left' (List.length_reverse ..), List.reverse_reverse]
  have hdrop : stack.values.drop arguments.length = rest := by
    rw [h, List.drop_left' (List.length_reverse ..)]
  refine ⟨{ limit := stack.limit, values := stack.values.drop arguments.length
            depth := stack.depth - arguments.length, depth_eq := by simp [stack.depth_eq] }, ?_, hdrop, rfl⟩
  rw [popN, if_neg hdepth, htake]

end OperandStack

namespace Chain

/-- Executes the instruction that calls a static method. -/
def callStatic (chain : Chain) (fuel : Nat) (m : MemberRef) : Step Next :=
  Step.execute chain ⟨chain.invokeWithin fuel, chain.initClassWithin fuel⟩ ⟨.invoke .static, .method m⟩

/-- A class of the program declares the method, which is static and takes and returns objects only. It may also
return nothing. -/
structure Reflectable (p : ClassDictionary) (m : MemberRef) (d : MethodDescriptor) : Prop where
  declared : ∃ c method, p.get? m.owner = some c ∧ c.method? m.name m.descriptor = some method ∧
    method.isStatic = true
  descriptor : MethodDescriptor.parse m.descriptor = .ok d
  parameters : ∀ t ∈ d.parameters, t.isReference = true
  returns : d.returns.isReference = true ∨ d.returns.isVoid = true

/-- The call of a method by reflection: on the object that stands for the method, with a receiver and an array
of arguments. -/
def reflective (object receiver array : Value) : Call := .onObject .virtual invoker object [receiver, array]

/-- An object stands for the method, and an array holds the arguments; `null` stands for an array of none. -/
structure Reflects (h : Heap) (m : MemberRef) (arguments : List Value) (object array : Value) : Prop where
  method : ∃ accessible, h.narrow View.method object = .ok ⟨m, accessible⟩
  arguments : if array.isNull then arguments = [] else
    ∃ elements, h.narrow View.array array = .ok elements ∧ elements.references = .ok arguments

/-- An instruction that calls a method, and a call of the method by reflection: they fail in the same way and in the
same state, or they end in the same state with the same value, which the instruction leaves on the stack above
`rest`. Where the method has no result, nothing is left there, and reflection gives `null`. -/
inductive SameResult (returns : FieldType) (a : Activation) (rest : List Value) :
    EStateM.Result Stop State (Next × Activation) → EStateM.Result Stop State Value → Prop
  | failure (e : Stop) (s : State) : SameResult returns a rest (.error e s) (.error e s)
  | nothing {stack : OperandStack} {s : State} (hvoid : returns.isVoid = true) (hvalues : stack.values = rest)
      (hlimit : stack.limit = a.stack.limit) :
      SameResult returns a rest (.ok (.advance, { a with stack }) s) (.ok .null s)
  | value {v : Value} {stack : OperandStack} {s : State} (hvoid : returns.isVoid = false)
      (hvalues : stack.values = v :: rest) (hlimit : stack.limit = a.stack.limit) :
      SameResult returns a rest (.ok (.advance, { a with stack }) s) (.ok v s)

variable {chain : Chain} {m : MemberRef} {arguments rest : List Value} {d : MethodDescriptor} {fuel : Nat} {w : World}
  {s : State} {a : Activation}

theorem SameResult.final {returns : FieldType} {x : Exec (Next × Activation)} {y : Exec Value}
    (h : SameResult returns a rest (x w s) (y w s)) : x.final w s = y.final w s := by
  unfold Exec.final
  generalize x w s = r, y w s = r' at h ⊢
  cases h <;> rfl

/-- The instruction sets up the class, calls the method and takes its result. -/
theorem callStatic_apply (chain : Chain) (fuel : Nat) (w : World) (s : State)
    (hd : MethodDescriptor.parse m.descriptor = .ok d)
    (hlength : arguments.length = d.parameters.length) (hstack : a.stack.values = arguments.reverse ++ rest) :
    ∃ below, below.values = rest ∧ below.limit = a.stack.limit ∧
      chain.callStatic fuel m a w s = match chain.initClassWithin fuel m.owner w s with
        | .error e t => .error e t
        | .ok _ t =>
          match chain.invokeWithin fuel (.onClass m arguments) w t with
          | .error e u => .error e u
          | .ok v u => (Step.takeResult d.returns v >>= fun _ => pure .advance) { a with stack := below } w u := by
  obtain ⟨below, hpop, hvalues, hlimit⟩ := OperandStack.popN_apply hstack
  have hintent : Step.intent ⟨.invoke .static, .method m⟩ a.stack =
      .ok (.call (.onClass m arguments) d.returns) below := by
    change Step.callIntent .static _ m a.stack = _
    have htype : Step.methodType m.descriptor = .ok d := by rw [Step.methodType, hd]
    rw [Step.callIntent, OperandStack.bind_apply, Step.ofStack_apply, htype]
    dsimp only
    rw [OperandStack.bind_apply, ← hlength, hpop]
    rfl
  refine ⟨below, hvalues, hlimit, ?_⟩
  rw [callStatic, Step.execute_eq, hintent]
  exact Step.fulfil_apply _

/-- A value of the type that the descriptor names is taken as it is. -/
theorem sameResult_takeResult {below : OperandStack} {v : Value} (hvalues : below.values = rest)
    (hlimit : below.limit = a.stack.limit) (hroom : rest.length < a.stack.limit)
    (hreturns : d.returns.isReference = true ∨ d.returns.isVoid = true) (hv : v.fits d.returns = true) :
    SameResult d.returns a rest
      ((Step.takeResult d.returns v >>= fun _ => pure .advance) { a with stack := below } w s)
      (.ok (if v = .void then .null else v) s) := by
  rw [Step.takeResult]
  by_cases hvoid : d.returns.isVoid = true
  · obtain rfl : v = .void := by
      cases ht : d.returns with
      | void => rw [ht] at hv; cases v <;> first | rfl | cases hv
      | _ => rw [ht] at hvoid; cases hvoid
    rw [if_pos hvoid, if_pos rfl]
    exact .nothing hvoid hvalues hlimit
  · have hreference : v.isReferenceLike = true := by
      cases ht : d.returns with
      | object | array => rw [ht] at hv; exact hv
      | _ => rw [ht] at hreturns hvoid; cases hreturns.resolve_right hvoid
    have hvalue : ¬(v = .void ∨ v = .top) := by rintro (rfl | rfl) <;> cases hreference
    have hdepth : ¬ below.limit ≤ below.depth := by
      rw [hlimit, below.depth_eq, hvalues]
      omega
    have htype : v.asType d.returns "invoke" = .ok v := if_pos hv
    rw [if_neg hvoid, if_neg fun h => hvalue (.inl h), htype, bind_assoc, Step.bind_apply, Step.liftExcept_apply]
    dsimp only
    rw [Step.bind_apply, Step.push, Step.liftStack_apply, OperandStack.push, if_neg hvalue, if_neg hdepth]
    exact .value (Bool.eq_false_iff.2 hvoid) (congrArg _ hvalues) hlimit

section Reflective

variable {object array : Value} (receiver : Value)

/-- Where the object stands for a method and the array holds its arguments, both are read. -/
theorem narrowThis_reflective {accessible : Bool} (h : s.heap.narrow View.method object = .ok ⟨m, accessible⟩) :
    (reflective object receiver array).narrowThis View.method w s = .ok ⟨m, accessible⟩ s := by
  change Exec.narrow View.method object w s = _
  rw [Exec.narrow, Exec.readHeap_apply, h]

theorem referencesArgument_reflective (h : Reflects s.heap m arguments object array) :
    (reflective object receiver array).referencesArgument 1 w s = .ok arguments s := by
  change (if array.isNull then pure [] else
    Exec.narrow View.array array >>= fun elements => liftM elements.references : Exec (List Value)) w s = _
  have harguments := h.arguments
  by_cases hnull : array.isNull = true
  · rw [if_pos hnull] at harguments ⊢
    rw [harguments]
    rfl
  · rw [if_neg hnull] at harguments ⊢
    obtain ⟨elements, helements, hreferences⟩ := harguments
    rw [Exec.bind_apply, Exec.narrow, Exec.readHeap_apply, helements]
    dsimp only
    rw [hreferences]
    rfl

/-- A call of a static method by reflection hands on a call of the method. -/
theorem invokeMethod_reflective (hm : Reflectable w.program m d) (hlength : arguments.length = d.parameters.length)
    (h : Reflects s.heap m arguments object array) :
    Library.invokeMethod (reflective object receiver array) w s = .ok (.forward (.onClass m arguments)) s := by
  obtain ⟨accessible, hobject⟩ := h.method
  obtain ⟨c, method, hc, hmethod, hstatic⟩ := hm.declared
  have hprimitive : (d.parameters ++ [d.returns]).find? (fun t => !t.isReference && !t.isVoid) = none := by
    simp only [List.find?_eq_none, List.mem_append, List.mem_singleton]
    rintro t (ht | rfl)
    · simp [hm.parameters t ht]
    · rcases hm.returns with hr | hr <;> simp [hr]
  rw [Library.invokeMethod, Exec.bind_apply, narrowThis_reflective receiver hobject]
  dsimp only
  rw [Exec.bind_apply, Library.methodTypes, hm.descriptor]
  dsimp only [Exec.ofDescriptor, Exec.pure_apply]
  rw [hprimitive]
  dsimp only
  rw [Exec.bind_apply, referencesArgument_reflective receiver h]
  dsimp only
  rw [if_neg (by simp [hlength]), Exec.bind_apply, Exec.read_apply]
  dsimp only
  simp only [hc, Option.bind_some, hmethod, Option.any_some, hstatic, if_true]
  rfl

theorem answer_reflective (hlibrary : chain.providers.head? = some (.native Catalog.library))
    (hm : Reflectable w.program m d) (hlength : arguments.length = d.parameters.length)
    (h : Reflects s.heap m arguments object array) :
    chain.answer (reflective object receiver array) w s = .ok (.handOn (.onClass m arguments)) s := by
  have hprovider : chain.provider? w.program s.heap (reflective object receiver array) =
      some (.native Catalog.library) := by
    obtain ⟨providers, hproviders⟩ := List.head?_eq_some_iff.1 hlibrary
    rw [provider?, hproviders]
    exact List.find?_cons_of_pos rfl
  have hfind : Catalog.library.find? (reflective object receiver array).member.owner
      (reflective object receiver array).member.signature = _ := find?_invoker
  rw [answer_apply, hprovider]
  simp only [Provider.answer, hfind, Exec.bind_apply, invokeMethod_reflective receiver hm hlength h, Exec.pure_apply]

/-- A call of a static method by reflection calls the method, and nothing else. -/
theorem invokeWithin_reflective (hlibrary : chain.providers.head? = some (.native Catalog.library))
    (hm : Reflectable w.program m d) (hlength : arguments.length = d.parameters.length)
    (h : Reflects s.heap m arguments object array) :
    chain.invokeWithin (fuel + 1) (reflective object receiver array) w s =
      match chain.invokeWithin fuel (.onClass m arguments) w s with
      | .ok v t => .ok (if v = .void then .null else v) t
      | .error e t => .error e t := invokeWithin_handOn (answer_reflective receiver hlibrary hm hlength h)

end Reflective

/-- A static method that is called by reflection gives the result that the instruction gives, if the set-up of its
class has begun. In general, the instruction sets up the class and then gives the result that reflection gives from
there, or fails where the set-up does. By reflection, the call is handed on, for which there is one unit of fuel
more. -/
theorem reflection_agrees (hchain : chain.Ordinary)
    (hlibrary : chain.providers.head? = some (.native Catalog.library)) (hm : Reflectable w.program m d)
    (hlength : arguments.length = d.parameters.length) (hstack : a.stack.values = arguments.reverse ++ rest)
    (hroom : rest.length < a.stack.limit) (s : State) (fuel : Nat) :
    (m.owner ∈ s.started → 0 < fuel → ∀ object receiver array, Reflects s.heap m arguments object array →
      SameResult d.returns a rest (chain.callStatic fuel m a w s)
        (chain.invokeWithin (fuel + 1) (reflective object receiver array) w s)) ∧
    (∀ e t, chain.initClassWithin fuel m.owner w s = .error e t → chain.callStatic fuel m a w s = .error e t) ∧
    ∀ t, chain.initClassWithin fuel m.owner w s = .ok () t →
      ∀ object receiver array, Reflects t.heap m arguments object array →
        SameResult d.returns a rest (chain.callStatic fuel m a w s)
          (chain.invokeWithin (fuel + 1) (reflective object receiver array) w t) := by
  obtain ⟨below, hvalues, hlimit, hcall⟩ := callStatic_apply chain fuel w s hm.descriptor hlength hstack
  have hsetup : ∀ t, chain.initClassWithin fuel m.owner w s = .ok () t →
      ∀ object receiver array, Reflects t.heap m arguments object array →
        SameResult d.returns a rest (chain.callStatic fuel m a w s)
          (chain.invokeWithin (fuel + 1) (reflective object receiver array) w t) := by
    intro t ht object receiver array h
    rw [hcall, ht, invokeWithin_reflective receiver hlibrary hm hlength h]
    dsimp only
    cases hinvoke : chain.invokeWithin fuel (.onClass m arguments) w t with
    | error e u => exact .failure e u
    | ok v u =>
      exact sameResult_takeResult hvalues hlimit hroom hm.returns (fits_invokeWithin hchain hm.descriptor hinvoke)
  refine ⟨fun hstarted hfuel => ?_, fun e t ht => by rw [hcall, ht], hsetup⟩
  -- where the set-up has begun, nothing more is done for it
  obtain ⟨n, rfl⟩ : ∃ n, fuel = n + 1 := ⟨fuel - 1, by omega⟩
  obtain ⟨c, -, hc, -⟩ := hm.declared
  refine hsetup s ?_
  rw [initClassWithin_apply, hc]
  exact if_pos hstarted

/-- A class with a text in a static field. -/
def noted : ClassFile :=
  ⟨"Noted", none, [], 0, 0, [⟨"text", "Ljava/lang/String;", 8, some (.string [119])⟩], []⟩

/-- The method `get` of a class that stores another text there when it is set up. -/
def noting : MemberRef := ⟨"Noting", "get", "()Ljava/lang/String;"⟩

/-- That class; the method returns the text. -/
def notingClass : ClassFile :=
  ⟨"Noting", none, [], 0, 0, [],
    [⟨"<clinit>", "()V", 8, some ⟨#[⟨.ldc, .const (.string [114])⟩,
        ⟨.putStatic, .field ⟨"Noted", "text", "Ljava/lang/String;"⟩⟩, ⟨.voidReturn, .none⟩], 0⟩⟩,
      ⟨"get", "()Ljava/lang/String;", 8, some ⟨#[⟨.getStatic, .field ⟨"Noted", "text", "Ljava/lang/String;"⟩⟩,
        ⟨.valueReturn .ref, .none⟩], 0⟩⟩]⟩

def notingWorld : World := ⟨.ofList [noted, notingClass], .standard, none, [], .still 0⟩

/-- Nothing has run yet, and there is an object that stands for the method. -/
def notingState (started : List String) : State :=
  ⟨[], ((Heap.empty 9).push "java/lang/reflect/Method" (some (.method ⟨noting, false⟩))).2, [], started, 0, 0⟩

/-- A method that returns a text, with nothing on its stack. -/
def notingCaller : Activation := ⟨.empty 1, .ofCount 0, .object "java/lang/String"⟩

theorem reflects_notingState (started : List String) :
    Reflects (notingState started).heap noting [] (.ref 0) .null := ⟨⟨false, rfl⟩, rfl⟩

theorem reflectable_noting : Reflectable notingWorld.program noting ⟨[], .object "java/lang/String"⟩ where
  declared := ⟨notingClass, notingClass.methods[1], by decide +kernel, by decide +kernel, by decide⟩
  descriptor := by decide +kernel
  parameters := nofun
  returns := .inl rfl

theorem reflection_agrees_noting : Reflectable notingWorld.program noting ⟨[], .object "java/lang/String"⟩ ∧
    Reflects (notingState ["Noting"]).heap noting [] (.ref 0) .null ∧
    SameResult (.object "java/lang/String") notingCaller []
      (standard.callStatic 9 noting notingCaller notingWorld (notingState ["Noting"]))
      (standard.invokeWithin 10 (reflective (.ref 0) .null .null) notingWorld (notingState ["Noting"])) := by
  have hstack : notingCaller.stack.values = [].reverse ++ [] := rfl
  have hagrees := reflection_agrees ordinary_standard rfl reflectable_noting rfl hstack (by decide)
    (notingState ["Noting"]) 9
  exact ⟨reflectable_noting, reflects_notingState _,
    hagrees.1 (by decide) (by decide) _ _ _ (reflects_notingState _)⟩

/-- Where the class has not been set up, the method returns the text that the field has before by reflection, and the
one that is stored then by the instruction. -/
theorem reflection_before_setUp : Reflects (notingState []).heap noting [] (.ref 0) .null ∧
    (Exec.final (standard.invokeWithin 10 (reflective (.ref 0) .null .null)) notingWorld
      (notingState [])).heap.contents? 1 = some (.string [119]) ∧
    (Exec.final (standard.callStatic 9 noting notingCaller) notingWorld
      (notingState [])).heap.contents? 1 = some (.string [114]) ∧
    ¬ SameResult (.object "java/lang/String") notingCaller []
      (standard.callStatic 9 noting notingCaller notingWorld (notingState []))
      (standard.invokeWithin 10 (reflective (.ref 0) .null .null) notingWorld (notingState [])) := by
  have hreflected : (Exec.final (standard.invokeWithin 10 (reflective (.ref 0) .null .null)) notingWorld
      (notingState [])).heap.contents? 1 = some (.string [119]) := by decide +kernel
  have hcalled : (Exec.final (standard.callStatic 9 noting notingCaller) notingWorld
      (notingState [])).heap.contents? 1 = some (.string [114]) := by decide +kernel
  refine ⟨reflects_notingState _, hreflected, hcalled, fun h => ?_⟩
  -- the states in which the two end hold different texts
  have htexts := hcalled.symm.trans ((congrArg (·.heap.contents? 1) h.final).trans hreflected)
  exact absurd htexts (by decide)

end Chain

end Jvm
