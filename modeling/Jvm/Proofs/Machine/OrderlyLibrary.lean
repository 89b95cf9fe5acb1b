import Jvm.Proofs.Machine.Natives
import Jvm.Proofs.Machine.Orderly

/-!
# The library is orderly

Every native method is an orderly action on calls that supply what its signature says (`orderly_library`): so
many arguments as it has parameters, which the heap has issued. The number of parameters is read off the
signature (`Library.arity`), so that an argument that a method asks for is checked against the signature under
which the method is registered.

The one call that is handed on, that of a method called by reflection, supplies what its descriptor says.
-/

namespace Jvm

open Exec

namespace Call

/-- The call has `count` arguments, and its references were issued. -/
structure Supplied (E : Demands) (n count : Nat) (c : Call) : Prop where
  receiver : ∀ v ∈ c.receiver, E.Issues n v
  arguments : ∀ v ∈ c.arguments, E.Issues n v
  length : E.handles → c.arguments.length = count

/-- The call supplies what its descriptor says. -/
def Proper (E : Demands) (n : Nat) (c : Call) : Prop :=
  ∃ d, MethodDescriptor.parse c.member.descriptor = .ok d ∧ c.Supplied E n d.parameters.length

end Call

/-- The answer of a native method is a reference that was issued or a call that supplies what it should. -/
def Reply.Meets (E : Demands) (n : Nat) : Reply → Prop
  | value v => E.Issues n v
  | forward c => c.Proper E n

variable {E : Surroundings} {n count i : Nat} {c : Call}

namespace Call.Supplied

variable (hc : c.Supplied E.toDemands n count)

include hc

theorem mono {k : Nat} (hk : n ≤ k) : c.Supplied E.toDemands k count :=
  ⟨fun v hv => (hc.receiver v hv).mono hk, fun v hv => (hc.arguments v hv).mono hk, hc.length⟩

theorem issues_this {v : Value} (hv : c.this = .ok v) : E.Issues n v := by
  unfold Call.this at hv
  split at hv <;> cases hv
  exact hc.receiver v ‹_›

theorem issues_argument {v : Value} (hv : c.argument i = .ok v) : E.Issues n v := by
  unfold Call.argument at hv
  split at hv <;> cases hv
  exact hc.arguments v (List.mem_of_getElem? ‹_›)

theorem mild_argument (hi : i < count) (hh : E.handles) : Mild (c.argument i) :=
  Call.mild_argument (by rw [hc.length hh]; exact hi)

variable {α β : Type} {P : Nat → α → Prop} {Q : Nat → β → Prop}

theorem this : Orderly E n E.Issues (liftM c.this) :=
  .ofOk (fun _ => c.mild_this) fun _ hv _ hk => (hc.issues_this hv).mono hk

theorem afterThis {f : Value → Exec β} (hf : ∀ v, E.Issues n v → Orderly E n Q (f v)) :
    Orderly E n Q (liftM c.this >>= f) := .after (fun _ => c.mild_this) fun v hv => hf v (hc.issues_this hv)

theorem afterArgument {f : Value → Exec β} (hi : i < count) (hf : ∀ v, E.Issues n v → Orderly E n Q (f v)) :
    Orderly E n Q (liftM (c.argument i) >>= f) :=
  .after (hc.mild_argument hi) fun v hv => hf v (hc.issues_argument hv)

theorem intArgument (hi : i < count) : Orderly E n Anything (liftM (c.intArgument i)) :=
  .ofOk (fun hh => (hc.mild_argument hi hh).bind fun v _ => v.mild_asInt _) fun _ _ _ _ => trivial

theorem stringArgument (hi : i < count) : Orderly E n Anything (c.stringArgument i) :=
  hc.afterArgument hi fun _ hv => .narrow _ hv

theorem narrowThisMeeting {view : View α}
    (hview : ∀ k p, p.Meets E.toDemands k → ∀ a, view.read? p = some a → P k a) :
    Orderly E n P (c.narrowThis view) := hc.afterThis fun _ hv => .narrowMeeting hview hv

theorem narrowThis (view : View α) : Orderly E n Anything (c.narrowThis view) :=
  hc.afterThis fun _ hv => .narrow view hv

theorem modifyThis {view : View α} (hview : view.Mutable) {f : α → α}
    (hf : ∀ k a, n ≤ k → (view.make a).Meets E.toDemands k → (view.make (f a)).Meets E.toDemands k) :
    Orderly E n Anything (c.modifyThis view f) := hc.afterThis fun _ hv => .modify hview hv hf

theorem bytesArgument (hi : i < count) : Orderly E n Anything (c.bytesArgument i) :=
  hc.afterArgument hi fun _ hv => (Orderly.narrow _ hv).next fun a => .ofMild a.mild_bytes

theorem referencesArgument (hi : i < count) :
    Orderly E n (fun k vs => ∀ v ∈ vs, E.Issues k v) (c.referencesArgument i) := by
  refine hc.afterArgument hi fun v hv => ?_
  split
  · exact .pure fun _ _ _ h => by cases h
  refine (Orderly.narrowArray hv).bind fun k a _ ha => ?_
  refine .ofOk (fun _ => a.mild_references) fun vs hvs j hj u hu hh => ?_
  exact (ArrayObject.issued_references (ha hh) hvs u hu).mono hj

theorem constructThis {p : Payload} (hp : p.Meets E.toDemands n) : Orderly E n E.Issues (c.constructThis p) := by
  refine hc.afterThis fun this hthis => ?_
  refine (Orderly.look (fun _ hh hn => Heap.mild_object ((hthis hh).mono hn)) fun _ _ => rfl).next fun o => ?_
  split
  · exact .result fun _ => by simp
  · exact (Orderly.construct hthis _ hp).next fun _ => .result fun _ => by simp

end Call.Supplied

namespace Exec

theorem orderly_hostFailure {α : Type} {P : Nat → α → Prop} (operation message : String) :
    Orderly E n P (hostFailure operation message) := .mild rfl

theorem orderly_newReferences (component : String) {elements : List Value} (h : ∀ v ∈ elements, E.Issues n v) :
    Orderly E n E.Issues (newReferences component elements) :=
  .allocate ⟨fun hh v hv => h v (by simpa using hv) hh, trivial⟩

theorem orderly_references {γ : Type} (component : String) {f : γ → Exec Value} {cs : List γ}
    (hf : ∀ c ∈ cs, Orderly E n E.Issues (f c)) :
    Orderly E n E.Issues (do newReferences component (← cs.mapM f)) :=
  (Orderly.mapM (fun _ _ _ hk hv => hv.mono hk) hf).bind fun _ _ _ hes => orderly_newReferences component hes

theorem orderly_newStrings (texts : List String) : Orderly E n E.Issues (newStrings texts) :=
  orderly_references _ fun _ _ => .newString _

theorem orderly_newTrace (frames : List CallFrame) : Orderly E n E.Issues (newTrace frames) :=
  orderly_references _ fun f _ => .allocate (p := .traceElement f) ⟨fun _ => trivial, trivial⟩

theorem orderly_newBytes (bs : List UInt8) : Orderly E n E.Issues (newBytes bs) :=
  .allocate (p := .array (.ofBytes bs)) ⟨fun _ => trivial, trivial⟩

theorem orderly_newClass (name : String) : Orderly E n E.Issues (newClass name) :=
  .allocate (p := .classObject name) ⟨fun _ => trivial, trivial⟩

/-- A descriptor is refused for a reason that is known. -/
theorem orderly_ofDescriptor {α : Type} {r : Except DescriptorError α} (hr : ∀ e, r = .error e → E.refusals e) :
    Orderly E n (fun _ a => r = .ok a) (ofDescriptor r) := by
  cases r with
  | ok a => exact .pure fun _ _ => rfl
  | error e => exact .refuse (hr e rfl)

theorem orderly_display {v : Value} (hv : E.Issues n v) : Orderly E n Anything (Exec.display v) := by
  unfold Exec.display
  split
  · exact .value _
  refine (Orderly.look (fun _ hh hn => Heap.mild_object ((hv hh).mono hn)) fun _ _ => rfl).next fun o => ?_
  split
  · exact .value _
  · exact .mild rfl

end Exec

namespace Library

/-! ### Signatures -/

/-- The number of parameters in the characters of a signature: those of the descriptor, which begins with the
first parenthesis. -/
def arity (signature : List Char) : Nat :=
  match MethodDescriptor.readParameters "" signature.length ((signature.dropWhile (· != '(')).drop 1) with
  | .ok (parameters, _) => parameters.length
  | .error _ => 0

/-- Parameters that are read are read with more fuel, too, and whatever the whole text is. -/
theorem readParameters_mono {whole whole' : String} {fuel fuel' : Nat} {cs : List Char}
    {r : List FieldType × List Char} (h : MethodDescriptor.readParameters whole fuel cs = .ok r)
    (hle : fuel ≤ fuel') : MethodDescriptor.readParameters whole' fuel' cs = .ok r := by
  induction fuel generalizing fuel' cs r with
  | zero =>
    unfold MethodDescriptor.readParameters at h
    split at h
    · cases h
      unfold MethodDescriptor.readParameters
      rfl
    · cases h
    · omega
  | succ fuel ih =>
    obtain ⟨k, rfl⟩ : ∃ k, fuel' = k + 1 := ⟨fuel' - 1, by omega⟩
    by_cases hclose : ∃ rest, cs = ')' :: rest
    · obtain ⟨rest, rfl⟩ := hclose
      simpa [MethodDescriptor.readParameters] using h
    have hne : ∀ rest, cs = ')' :: rest → False := fun rest hrest => hclose ⟨rest, hrest⟩
    rw [MethodDescriptor.readParameters] at h ⊢
    · split at h
      · cases h
      · cases h
      · rename_i t rest _ _
        cases hrest : MethodDescriptor.readParameters whole fuel rest with
        | error => simp [hrest] at h
        | ok p =>
          rw [hrest] at h
          simp only [ih hrest (Nat.le_of_succ_le_succ hle)]
          exact h
    all_goals exact hne

/-- A signature is a name and a descriptor in one way only. -/
theorem arity_eq {signature : List Char} {name descriptor : String} {d : MethodDescriptor}
    (hone : signature.count '(' = 1) (h : name ++ descriptor = String.ofList signature)
    (hd : MethodDescriptor.parse descriptor = .ok d) : arity signature = d.parameters.length := by
  unfold MethodDescriptor.parse at hd
  split at hd
  · rename_i cs hcs
    have hlist : name.toList ++ '(' :: cs = signature := by
      rw [← hcs, ← String.toList_append, h, String.toList_ofList]
    have hname : '(' ∉ name.toList := by
      rw [← List.count_eq_zero]
      rw [← hlist, List.count_append, List.count_cons_self] at hone
      omega
    have hdrop : (signature.dropWhile (· != '(')).drop 1 = cs := by
      rw [← hlist, List.dropWhile_append_of_pos]
      · simp
      · intro c hc
        simp only [bne_iff_ne]
        rintro rfl
        exact hname hc
    have hlength : cs.length ≤ signature.length := by simp [← hlist]; omega
    cases hread : MethodDescriptor.readParameters descriptor cs.length cs with
    | error => simp [hread] at hd
    | ok p =>
      rw [arity, hdrop, readParameters_mono hread hlength]
      rw [hread] at hd
      dsimp only at hd
      split at hd <;> cases hd
      rfl
  · cases hd

/-- All methods of a list are orderly on calls that supply what their signatures say. -/
def AllOrderly (E : Surroundings) (ms : List NativeMethod) : Prop :=
  ∀ m ∈ ms, ∃ cs, m.signature = String.ofList cs ∧ cs.count '(' = 1 ∧
    ∀ n c, c.Supplied E.toDemands n (arity cs) → Orderly E n (Reply.Meets E.toDemands) (m.run c)

theorem AllOrderly.nil : AllOrderly E [] := nofun

theorem AllOrderly.cons {m : NativeMethod} {ms : List NativeMethod} {cs : List Char}
    (hcs : m.signature = String.ofList cs) (hone : cs.count '(' = 1)
    (hm : ∀ n c, c.Supplied E.toDemands n (arity cs) → Orderly E n (Reply.Meets E.toDemands) (m.run c))
    (hms : AllOrderly E ms) : AllOrderly E (m :: ms) := by
  intro m' hm'
  rcases List.mem_cons.1 hm' with rfl | hm'
  · exact ⟨cs, hcs, hone, hm⟩
  · exact hms m' hm'

theorem AllOrderly.append {ms ns : List NativeMethod} (hms : AllOrderly E ms) (hns : AllOrderly E ns) :
    AllOrderly E (ms ++ ns) := by
  intro m hm
  rcases List.mem_append.1 hm with hm | hm
  · exact hms m hm
  · exact hns m hm

theorem AllOrderly.native {owner signature : String} {f : Call → Exec Value} {ms : List NativeMethod}
    {cs : List Char} (hcs : signature = String.ofList cs) (hone : cs.count '(' = 1)
    (hf : ∀ n c, c.Supplied E.toDemands n (arity cs) → Orderly E n E.Issues (f c)) (hms : AllOrderly E ms) :
    AllOrderly E (native owner signature f :: ms) :=
  hms.cons hcs hone fun n c hc => (hf n c hc).map fun _ _ _ hv _ hj => hv.mono hj

/-! ### Strings -/

theorem orderly_charsArgument (hc : c.Supplied E.toDemands n count) (hi : i < count) :
    Orderly E n Anything (charsArgument c i) :=
  hc.afterArgument hi fun _ hv => (Orderly.narrow _ hv).next fun a => .ofMild a.mild_chars

theorem orderly_charRange (hc : c.Supplied E.toDemands n count) (hcount : 3 ≤ count) :
    Orderly E n Anything (charRange c) :=
  (orderly_charsArgument hc (by omega)).next fun _ => (hc.intArgument (by omega)).next fun _ =>
    (hc.intArgument (by omega)).next fun _ => .ofMild (mild_unitRange _ _ _)

theorem orderly_charsetArgument (hc : c.Supplied E.toDemands n count) (hi : i < count) :
    Orderly E n Anything (charsetArgument c i) := by
  refine (hc.stringArgument hi).next fun name => ?_
  dsimp only
  split
  · exact .value _
  · exact .mild rfl

theorem orderly_compilePattern (operation source : String) :
    Orderly E n Anything (compilePattern operation source) := by
  unfold compilePattern
  split
  · exact .value _
  · exact .mild rfl

theorem orderly_substringOf (hc : c.Supplied E.toDemands n count) (units : Units) (first last : Int) :
    Orderly E n E.Issues (substringOf c units first last) := by
  refine (Orderly.ofMild (mild_unitsBetween _ _ _)).next fun part => ?_
  split
  · exact hc.this
  · exact .newString _

theorem orderly_unitAt (units : Units) (index : Int32) : Orderly E n E.Issues (liftM (unitAt units index)) := by
  refine .ofOk (fun _ => mild_unitAt units index) fun v hv _ _ _ => ?_
  unfold unitAt at hv
  split at hv <;> cases hv
  simp

theorem orderly_payload {v : Value} (hv : E.Issues n v) : Orderly E n Anything (Exec.readHeap (·.payload v)) :=
  .look (fun _ hh hn => Heap.mild_payload ((hv hh).mono hn)) fun _ _ => rfl

theorem orderly_stringEquals (hc : c.Supplied E.toDemands n count) (hcount : 1 ≤ count) :
    Orderly E n E.Issues (stringEquals c) := by
  refine (hc.narrowThis _).next fun this => hc.afterArgument hcount fun other hother => ?_
  split
  · exact .scalar rfl
  refine (orderly_payload hother).next fun p => ?_
  split
  · exact .scalar rfl
  · exact .scalar rfl

theorem orderly_trim (hc : c.Supplied E.toDemands n count) : Orderly E n E.Issues (trim c) := by
  refine (hc.narrowThis _).next fun units => ?_
  dsimp only
  split
  · exact hc.this
  · exact .newString _

theorem orderly_valueOf (hc : c.Supplied E.toDemands n count) (hcount : 1 ≤ count) :
    Orderly E n E.Issues (valueOf c) := by
  refine hc.afterArgument hcount fun v hv => ?_
  have hrest : ∀ isString : Bool, Orderly E n E.Issues
      (if isString = true then Pure.pure v else do newString (← Exec.display v)) := by
    -- the text itself, or a new one
    intro isString
    split
    · exact .result hv
    · exact (orderly_display hv).next fun _ => .newString _
  dsimp only
  split
  · exact (Orderly.value false).next hrest
  refine (orderly_payload hv).next fun p => ?_
  split
  · exact (Orderly.value true).next hrest
  · exact (Orderly.value false).next hrest

theorem ref?_indexOfUnits (units : Units) (codePoint start : Int32) :
    (indexOfUnits units codePoint start).ref? = none := by
  unfold indexOfUnits placeValue
  dsimp only
  split <;> rfl

theorem ref?_placeValue (place : Option Nat) : (placeValue place).ref? = none := by
  cases place <;> rfl

theorem allOrderly_stringMethods : AllOrderly E stringMethods := by
  unfold stringMethods
  repeat' refine AllOrderly.native rfl (by decide) (fun n c hc => ?_) ?_
  case' refine_2 => exact .nil
  -- each body is a chain of actions: it is taken apart where two are joined, and each action has a lemma of its own
  all_goals try
    simp only [stringOfRange, stringOfChars, stringOfBytes, stringOfEncoded, internString, toCharArray, stringLength,
      stringHash, stringCharAt, indexOf, indexOfFrom, lastIndexOf, substring, substringBetween, splitString,
      valueOfRange, encodeString, stringBytes]
  all_goals
    repeat' first
      | with_reducible first
        | exact hc.narrowThis _ | exact hc.stringArgument (by decide) | exact hc.intArgument (by decide)
        | exact hc.bytesArgument (by decide) | exact orderly_charsArgument hc (by decide)
        | exact orderly_charRange hc (by decide) | exact orderly_charsetArgument hc (by decide)
        | exact orderly_stringEquals hc (by decide) | exact orderly_valueOf hc (by decide)
        | exact orderly_trim hc | exact orderly_substringOf hc _ _ _ | exact orderly_unitAt _ _
        | exact orderly_compilePattern _ _ | exact orderly_newStrings _ | exact orderly_newBytes _
        | exact .newString _ | exact .intern _ | refine hc.constructThis ⟨fun _ => ?_, ?_⟩
        | refine .allocate ⟨fun _ => ?_, ?_⟩
        | refine Orderly.next (P := Anything) ?_ fun _ => ?_
      | exact .scalar (ref?_indexOfUnits _ _ _)
      | exact .scalar (ref?_placeValue _)
      | exact .scalar rfl
      | exact trivial

/-! ### Builders -/

theorem orderly_editBuilder (hc : c.Supplied E.toDemands n count) (f : Array UInt16 → Array UInt16) :
    Orderly E n E.Issues (editBuilder c f) :=
  hc.afterThis fun _ hthis =>
    (Orderly.modify View.mutable_builder hthis fun _ _ _ _ => ⟨fun _ => trivial, trivial⟩).next fun _ => .result hthis

theorem orderly_textArgument (hc : c.Supplied E.toDemands n count) (hi : i < count) :
    Orderly E n Anything (textArgument c i) := by
  refine hc.afterArgument hi fun v _ => ?_
  split
  · exact .value _
  · exact hc.stringArgument hi

theorem orderly_unitArgument (hc : c.Supplied E.toDemands n count) (hi : i < count) :
    Orderly E n Anything (liftM (unitArgument c i)) :=
  .ofOk (fun hh => ((hc.mild_argument hi hh).bind fun v _ => v.mild_asInt _).map _) fun _ _ _ _ => trivial

theorem orderly_insertString (hc : c.Supplied E.toDemands n count) (hcount : 2 ≤ count) :
    Orderly E n E.Issues (insertString c) := by
  refine (hc.intArgument (by omega)).next fun offset => (orderly_textArgument hc (by omega)).next fun inserted => ?_
  refine (hc.narrowThis _).next fun units => ?_
  have hplace : Mild ((placeWithin offset (units.size + 1)).mapError
      fun _ => Fault.stringIndex offset.toInt units.size) := .mapError fun _ => rfl
  exact (Orderly.ofMild hplace).next fun place => orderly_editBuilder hc _

theorem allOrderly_builderMethods : AllOrderly E builderMethods := by
  unfold builderMethods
  repeat' refine AllOrderly.native rfl (by decide) (fun n c hc => ?_) ?_
  case' refine_2 => exact .nil
  all_goals try
    simp only [emptyBuilder, builderOf, builderOfCapacity, appendInt, appendChar, appendString, appendObject,
      appendUnits, builderText, builderLength, builderCharAt, setCharAt, reverse]
  all_goals
    repeat' first
      | with_reducible first
        | exact .mild rfl | exact hc.narrowThis _ | exact hc.stringArgument (by decide)
        | exact hc.intArgument (by decide) | exact orderly_textArgument hc (by decide)
        | exact orderly_unitArgument hc (by decide) | exact orderly_insertString hc (by decide)
        | exact orderly_editBuilder hc _ | exact (orderly_editBuilder hc _).any
        | exact orderly_display (by assumption) | exact .newString _ | exact .ofMild (mild_placeWithin _ _)
        | refine hc.constructThis ⟨fun _ => ?_, ?_⟩ | refine hc.afterArgument (by decide) fun _ _ => ?_
        | refine Orderly.next (P := Anything) ?_ fun _ => ?_
      | exact .scalar rfl
      | exact trivial
      | split

/-! ### Exceptions -/

theorem orderly_constructThrowable (hc : c.Supplied E.toDemands n count) (message : Option Units) :
    Orderly E n E.Issues (constructThrowable c message) := by
  refine Orderly.get (fun s _ hn => (hc.mono hn).constructThis ⟨fun _ => trivial, trivial⟩) fun s t l hframes _ _ => ?_
  rw [hframes]

theorem orderly_throwableOfMessage (hc : c.Supplied E.toDemands n count) (hcount : 1 ≤ count) :
    Orderly E n E.Issues (throwableOfMessage c) := by
  refine hc.afterArgument hcount fun v _ => ?_
  split
  · exact orderly_constructThrowable hc _
  · exact (hc.stringArgument hcount).next fun _ => orderly_constructThrowable hc _

theorem allOrderly_throwableMethods : AllOrderly E throwableMethods := by
  simp only [throwableMethods, List.flatMap_cons, List.flatMap_nil, List.append_nil, List.cons_append,
    List.nil_append]
  repeat' refine AllOrderly.native rfl (by decide) (fun n c hc => ?_) ?_
  case' refine_2 => exact .nil
  all_goals try simp only [plainThrowable, throwableTrace, throwableText]
  all_goals
    repeat' with_reducible first
      | exact hc.narrowThis _ | exact orderly_constructThrowable hc _ | exact orderly_throwableOfMessage hc (by decide)
      | exact orderly_newTrace _ | exact orderly_display (by assumption) | exact .newString _
      | refine hc.afterThis fun _ _ => ?_ | refine Orderly.next (P := Anything) ?_ fun _ => ?_

/-! ### Objects -/

theorem orderly_arraycopy (hc : c.Supplied E.toDemands n count) (hcount : 5 ≤ count) :
    Orderly E n E.Issues (arraycopy c) := by
  refine hc.afterArgument (by omega) fun _ hv => (Orderly.narrowArray hv).bind fun k source hk hs => ?_
  have hc := hc.mono hk
  refine (hc.intArgument (by omega)).next fun start => hc.afterArgument (by omega) fun destination hd => ?_
  refine (hc.intArgument (by omega)).next fun offset => (hc.intArgument (by omega)).next fun length => ?_
  refine (Orderly.narrowArray hd).bind fun j target hj ht => ?_
  refine .after (fun _ => target.mild_copyFrom _ _ _ _) fun copied hcopied => ?_
  have hissued : E.handles → copied.Issued j := fun hh =>
    ArrayObject.issued_copyFrom (ht hh) ((hs hh).mono hj) hcopied
  exact (Orderly.modify View.mutable_array (hd.mono hj) fun _ _ hi _ =>
    ⟨fun hh => (hissued hh).mono hi, trivial⟩).next fun _ => .scalar rfl

theorem orderly_currentTimeMillis (c : Call) : Orderly E n E.Issues (currentTimeMillis c) := by
  refine Orderly.clock.next fun time => ?_
  split
  · exact orderly_hostFailure _ _
  · exact .scalar rfl

theorem orderly_threadStackTrace (c : Call) : Orderly E n E.Issues (threadStackTrace c) := by
  rw [threadStackTrace_eq]
  exact .framed (f := fun frames => newTrace (CallFrame.ofMethod "java/lang/Thread" "getStackTrace" 0 :: frames))
    fun frames => orderly_newTrace _

theorem orderly_parseLongText (text : Units) (radix : Int32) :
    Orderly E n E.Issues (liftM (parseLongText text radix)) := by
  refine .ofOk (fun _ => (mild_parseInteger text radix _ _).map _) fun v hv _ _ _ => ?_
  unfold parseLongText at hv
  cases hp : parseInteger text radix (-0x8000000000000000) 0x8000000000000000 <;> simp [hp, Except.map] at hv
  simp [← hv]

theorem orderly_parseIntText (text : Units) : Orderly E n E.Issues (liftM (parseIntText text)) := by
  refine .ofOk (fun _ => (mild_parseInteger text 10 _ _).map _) fun v hv _ _ _ => ?_
  unfold parseIntText at hv
  cases hp : parseInteger text 10 (-0x80000000) 0x80000000 <;> simp [hp, Except.map] at hv
  simp [← hv]

theorem allOrderly_objectMethods : AllOrderly E objectMethods := by
  unfold objectMethods
  repeat' refine AllOrderly.native rfl (by decide) (fun n c hc => ?_) ?_
  case' refine_2 => exact .nil
  all_goals try
    simp only [getClass, currentThread, frameClassName, frameMethodName, frameLineNumber,
      parseLong, parseLongRadix, parseInt, languageAccess, constantPoolOf, constantPoolSize]
  all_goals
    repeat' first
      | with_reducible first
        | exact .mild rfl | exact .className (by assumption) | exact .narrow _ (by assumption)
        | exact hc.narrowThis _ | exact hc.stringArgument (by decide) | exact hc.intArgument (by decide)
        | exact orderly_arraycopy hc (by decide) | exact orderly_currentTimeMillis c | exact orderly_threadStackTrace c
        | exact orderly_parseLongText _ _ | exact orderly_parseIntText _
        | exact orderly_newClass _ | exact .newString _
        | refine hc.constructThis ⟨fun _ => ?_, ?_⟩ | refine .allocate ⟨fun _ => ?_, ?_⟩
        | refine .allocateAs _ ⟨fun _ => ?_, ?_⟩
        | refine hc.afterThis fun _ _ => ?_ | refine hc.afterArgument (by decide) fun _ _ => ?_
        | refine Orderly.world (fun w _ => ?_) fun _ _ => ?_
        | refine Orderly.next (P := Anything) ?_ fun _ => ?_
      | exact .scalar rfl
      | exact trivial
      | rfl
      | split

/-! ### Reflection -/

/-- Objects are made for the methods and fields of classes that the program has. -/
theorem orderly_programClass (name : String) :
    Orderly E n (fun _ cls => (∀ m ∈ cls.methods, E.ReadsMethod m.descriptor) ∧
      ∀ f ∈ cls.fields, E.ReadsField f.descriptor) (programClass name) := by
  refine .world (fun w hw => ?_) fun _ _ => rfl
  split
  · exact .pure fun _ _ => ⟨hw.methods name _ ‹_›, hw.fields name _ ‹_›⟩
  · exact .mild rfl

theorem orderly_getDeclaredMethod (hc : c.Supplied E.toDemands n count) (hcount : 2 ≤ count) :
    Orderly E n E.Issues (getDeclaredMethod c) := by
  refine (hc.narrowThis _).next fun owner => (hc.stringArgument (by omega)).next fun name => ?_
  refine (hc.referencesArgument (by omega)).bind fun k vs _ hvs => ?_
  refine (Orderly.mapM (P := Anything) (fun _ _ _ _ _ => trivial) fun v hv => .narrow View.classObject (hvs v hv)).next
    fun types => ?_
  refine (orderly_programClass owner).bind fun j cls _ hcls => ?_
  split
  · rename_i m hm
    exact .allocate (p := .method { member := ⟨owner, m.name, m.descriptor⟩ })
      ⟨fun _ => trivial, hcls.1 m (List.mem_of_find?_eq_some hm)⟩
  · exact .mild rfl

theorem orderly_getDeclaredMethods (hc : c.Supplied E.toDemands n count) :
    Orderly E n E.Issues (getDeclaredMethods c) :=
  (hc.narrowThis _).next fun owner => (orderly_programClass owner).bind fun _ _ _ hcls =>
    orderly_references _ fun m hm => .allocate (p := .method { member := ⟨owner, m.name, m.descriptor⟩ })
      ⟨fun _ => trivial, hcls.1 m (List.mem_filter.1 hm).1⟩

theorem orderly_getDeclaredFields (hc : c.Supplied E.toDemands n count) :
    Orderly E n E.Issues (getDeclaredFields c) :=
  (hc.narrowThis _).next fun owner => (orderly_programClass owner).bind fun _ _ _ hcls =>
    orderly_references _ fun f hf => .allocate (p := .field ⟨owner, f.name, f.descriptor⟩)
      ⟨fun _ => trivial, hcls.2 f hf⟩

theorem orderly_getInterfaces (hc : c.Supplied E.toDemands n count) : Orderly E n E.Issues (getInterfaces c) :=
  (hc.narrowThis _).next fun name => (orderly_programClass name).next fun _ =>
    orderly_references _ fun above _ => orderly_newClass above

/-- The method that the receiver stands for has a descriptor that is read, or refused for a known reason. -/
theorem orderly_thisMethod (hc : c.Supplied E.toDemands n count) :
    Orderly E n (fun _ m => E.ReadsMethod m.member.descriptor) (c.narrowThis View.method) :=
  hc.narrowThisMeeting fun _ p hp m hm => by cases p <;> cases hm; exact hp.reads

theorem orderly_methodTypes {m : MethodObject} (hm : E.ReadsMethod m.member.descriptor) :
    Orderly E n (fun _ d => MethodDescriptor.parse m.member.descriptor = .ok d) (methodTypes m) :=
  orderly_ofDescriptor hm

theorem orderly_getReturnType (hc : c.Supplied E.toDemands n count) : Orderly E n E.Issues (getReturnType c) :=
  (orderly_thisMethod hc).bind fun _ _ _ hm => (orderly_methodTypes hm).next fun _ => orderly_newClass _

theorem orderly_getParameterTypes (hc : c.Supplied E.toDemands n count) :
    Orderly E n E.Issues (getParameterTypes c) :=
  (orderly_thisMethod hc).bind fun _ _ _ hm => (orderly_methodTypes hm).next fun _ =>
    orderly_references _ fun t _ => orderly_newClass t.internalName

theorem orderly_getType (hc : c.Supplied E.toDemands n count) : Orderly E n E.Issues (getType c) := by
  have hfield : Orderly E n (fun _ f => E.ReadsField f.descriptor) (c.narrowThis View.field) :=
    hc.narrowThisMeeting fun _ p hp f hf => by cases p <;> cases hf; exact hp.reads
  exact hfield.bind fun _ f _ hf => (orderly_ofDescriptor hf).next fun _ => orderly_newClass _

theorem orderly_setAccessible (hc : c.Supplied E.toDemands n count) (hcount : 1 ≤ count) :
    Orderly E n E.Issues (setAccessible c) := by
  refine hc.afterArgument hcount fun v _ => (Orderly.ofMild (v.mild_asInt _)).next fun on => ?_
  have hkeeps : ∀ k (m : MethodObject) accessible, n ≤ k → (Payload.method m).Meets E.toDemands k →
      (Payload.method { m with accessible }).Meets E.toDemands k :=
    fun _ _ _ _ hm => ⟨fun _ => trivial, hm.reads⟩
  exact (hc.modifyThis View.mutable_method fun k m hk hm => hkeeps k m _ hk hm).next fun _ => .scalar rfl

/-- The call that is handed on has as many arguments as the descriptor of its method has parameters. -/
theorem orderly_invokeMethod (hc : c.Supplied E.toDemands n count) (hcount : 2 ≤ count) :
    Orderly E n (Reply.Meets E.toDemands) (invokeMethod c) := by
  refine (orderly_thisMethod hc).bind fun k m hk hm => (orderly_methodTypes hm).bind fun j d hj hd => ?_
  have hc := (hc.mono hk).mono hj
  split
  · exact .mild rfl
  refine (hc.referencesArgument (by omega)).bind fun i arguments hi harguments => ?_
  have hc := hc.mono hi
  split
  · exact .mild rfl
  rename_i hlength
  refine .world (fun w _ => ?_) fun _ _ => rfl
  dsimp only
  split
  · exact .pure fun _ hl => ⟨d, hd, nofun, fun v hv => (harguments v hv).mono hl, fun _ => by
      simpa [Call.onClass] using hlength⟩
  refine hc.afterArgument (by omega) fun receiver hreceiver => ?_
  split
  · exact .mild rfl
  · exact .pure fun _ hl => ⟨d, hd, fun v hv => by cases hv; exact hreceiver.mono hl,
      fun v hv => (harguments v hv).mono hl, fun _ => by simpa [Call.onObject] using hlength⟩

theorem allOrderly_reflectionMethods : AllOrderly E reflectionMethods := by
  unfold reflectionMethods
  repeat' refine AllOrderly.native rfl (by decide) (fun n c hc => ?_) ?_
  case' refine_2 =>
    refine AllOrderly.cons rfl (by decide) (fun n c hc => orderly_invokeMethod hc (by decide)) ?_
  repeat' refine AllOrderly.native rfl (by decide) (fun n c hc => ?_) ?_
  case' refine_2 => exact .nil
  all_goals try
    simp only [forName, getClassName, getClassLoader, getSuperclass, thisClass, getProtectionDomain, getCodeSource,
      getLocation, openStream, methodName, methodHash, fieldName]
  all_goals
    repeat' first
      | with_reducible first
        | exact .mild rfl | exact hc.narrowThis _ | exact hc.stringArgument (by decide)
        | exact (orderly_programClass _).any
        | exact orderly_getDeclaredMethod hc (by decide) | exact orderly_getDeclaredMethods hc
        | exact orderly_getDeclaredFields hc | exact orderly_getInterfaces hc
        | exact orderly_getReturnType hc | exact orderly_getParameterTypes hc
        | exact orderly_getType hc | exact orderly_setAccessible hc (by decide)
        | exact orderly_newClass _ | exact .newString _ | exact orderly_hostFailure _ _
        | refine .allocate ⟨fun _ => ?_, ?_⟩ | refine .allocateAs _ ⟨fun _ => ?_, ?_⟩
        | refine Orderly.world (fun w _ => ?_) fun _ _ => ?_
        | refine Orderly.next (P := Anything) ?_ fun _ => ?_
      | exact .scalar rfl
      | exact trivial
      | rfl
      | split

/-! ### Method handles -/

theorem orderly_callSiteOf (hc : c.Supplied E.toDemands n count) (hcount : 1 ≤ count) :
    Orderly E n E.Issues (callSiteOf c) :=
  hc.afterArgument hcount fun _ hv => (Orderly.narrow _ hv).next fun _ =>
    hc.constructThis ⟨fun _ => trivial, trivial⟩

theorem allOrderly_handleMethods : AllOrderly E handleMethods := by
  unfold handleMethods
  -- the signatures of the two lookups are put together of two texts
  refine AllOrderly.native rfl (by decide) (fun n c hc => ?_) <|
    AllOrderly.native String.ofList_append.symm (by decide) (fun n c hc => ?_) <|
    AllOrderly.native String.ofList_append.symm (by decide) (fun n c hc => ?_) <|
    AllOrderly.native rfl (by decide) (fun n c hc => ?_) <|
    AllOrderly.native rfl (by decide) (fun n c hc => orderly_callSiteOf hc (by decide)) .nil
  all_goals simp only [methodTypeOf, findHandle, handleAsType]
  all_goals
    repeat' first
      | with_reducible first
        | exact .mild rfl | exact .narrow _ (by assumption) | exact hc.this | exact hc.narrowThis _
        | exact hc.stringArgument (by decide) | refine .allocate ⟨fun _ => ?_, ?_⟩
        | refine hc.afterArgument (by decide) fun _ _ => ?_
        | refine Orderly.next (P := Anything) ?_ fun _ => ?_
      | exact trivial
      | split

/-! ### Streams -/

theorem orderly_readInto (source : Option ByteSource) {buffer : Value} (hb : E.Issues n buffer)
    (offset length : Int32) : Orderly E n Anything (readInto source buffer offset length) := by
  unfold readInto
  repeat' first
    | with_reducible first
      | exact .value _ | exact .ofMild (mild_rangeWithin _ _ _) | exact .narrow _ hb | exact .mild rfl
      | refine .modify View.mutable_array hb fun _ _ _ _ => ⟨fun _ => ?_, ?_⟩
      | refine Orderly.next (P := Anything) ?_ fun _ => ?_
    | exact trivial
    | split

theorem orderly_readSource (hc : c.Supplied E.toDemands n count) (hcount : 3 ≤ count) :
    Orderly E n E.Issues (readSource c) := by
  refine hc.afterThis fun this hthis => (Orderly.narrow _ hthis).next fun source => ?_
  refine hc.afterArgument (by omega) fun buffer hb => (hc.intArgument (by omega)).next fun offset => ?_
  refine (hc.intArgument (by omega)).next fun length => (orderly_readInto _ hb _ _).next fun p => ?_
  dsimp only
  split
  · exact (Orderly.modify View.mutable_source hthis fun _ _ _ _ => ⟨fun _ => trivial, trivial⟩).next
      fun _ => .scalar rfl
  · exact (Orderly.value ()).next fun _ => .scalar rfl

/-- The entry of an archive is taken out while it is read, and put back. -/
theorem orderly_readArchive (hc : c.Supplied E.toDemands n count) (hcount : 3 ≤ count) :
    Orderly E n E.Issues (readArchive c) := by
  have hmodify : ∀ {this : Value} (f : ZipStream → ZipStream), E.Issues n this →
      Orderly E n Anything (Exec.modify View.zipStream this f) :=
    fun _ hthis => .modify View.mutable_zipStream hthis fun _ _ _ _ => ⟨fun _ => trivial, trivial⟩
  refine hc.afterThis fun this hthis => (Orderly.narrow _ hthis).next fun stream => ?_
  refine (hmodify _ hthis).next fun _ => hc.afterArgument (by omega) fun buffer hb => ?_
  refine (hc.intArgument (by omega)).next fun offset => (hc.intArgument (by omega)).next fun length => ?_
  exact (orderly_readInto _ hb _ _).next fun p => (hmodify _ hthis).next fun _ => .scalar rfl

theorem orderly_openArchive (hc : c.Supplied E.toDemands n count) (hcount : 1 ≤ count) :
    Orderly E n E.Issues (openArchive c) :=
  hc.afterArgument hcount fun _ hv => (Orderly.narrow _ hv).next fun _ =>
    (Orderly.modify View.mutable_source hv fun _ _ _ _ => ⟨fun _ => trivial, trivial⟩).next fun _ =>
      hc.constructThis ⟨fun _ => trivial, trivial⟩

theorem allOrderly_streamMethods : AllOrderly E streamMethods := by
  unfold streamMethods
  repeat' refine AllOrderly.native rfl (by decide) (fun n c hc => ?_) ?_
  case' refine_2 => exact .nil
  all_goals try
    simp only [close, emptySink, sinkOfCapacity, writeByte, writeBytes, writeRange, sinkBytes, sinkSize, readByte,
      nextEntry, closeEntry, entryName, entryExtra]
  all_goals
    repeat' first
      | with_reducible first
        | exact .mild rfl | exact .ofMild (mild_rangeWithin _ _ _) | exact hc.narrowThis _
        | exact hc.intArgument (by decide) | exact hc.bytesArgument (by decide)
        | exact orderly_readSource hc (by decide) | exact orderly_readArchive hc (by decide)
        | exact orderly_openArchive hc (by decide) | exact orderly_payload (by assumption)
        | exact orderly_newBytes _ | exact .newString _ | exact orderly_hostFailure _ _
        | refine hc.constructThis ⟨fun _ => ?_, ?_⟩ | refine .allocate ⟨fun _ => ?_, ?_⟩
        | refine hc.modifyThis View.mutable_sink fun _ _ _ _ => ⟨fun _ => ?_, ?_⟩
        | refine hc.modifyThis View.mutable_source fun _ _ _ _ => ⟨fun _ => ?_, ?_⟩
        | refine hc.modifyThis View.mutable_zipStream fun _ _ _ _ => ⟨fun _ => ?_, ?_⟩
        | refine hc.afterThis fun _ _ => ?_ | refine Orderly.next (P := Anything) ?_ fun _ => ?_
      | exact .scalar rfl
      | exact trivial
      | split

/-! ### Patterns, collections and digests -/

theorem orderly_availableCharsets (c : Call) : Orderly E n E.Issues (availableCharsets c) :=
  (Orderly.mapM (fun _ _ _ hk hv => hv.mono hk) fun _ _ => .newString _).bind fun _ _ _ hes =>
    .allocateAs _ (p := .collection _) ⟨fun hh v hv => hes v hv hh, trivial⟩

theorem orderly_thisCollection (hc : c.Supplied E.toDemands n count) :
    Orderly E n (fun k es => ∀ v ∈ es, E.Issues k v) (c.narrowThis View.collection) :=
  hc.narrowThisMeeting fun _ p hp es hes v hv hh => by cases p <;> cases hes; exact hp.issued hh v hv

theorem orderly_keySet (hc : c.Supplied E.toDemands n count) : Orderly E n E.Issues (keySet c) :=
  (orderly_thisCollection hc).bind fun _ es _ hes =>
    .allocate (p := .collection es) ⟨fun hh v hv => hes v hv hh, trivial⟩

theorem orderly_iteratorOf (hc : c.Supplied E.toDemands n count) : Orderly E n E.Issues (iteratorOf c) :=
  (orderly_thisCollection hc).bind fun _ es _ hes =>
    .allocate (p := .iterator { elements := es }) ⟨fun hh v hv => hes v hv hh, trivial⟩

theorem orderly_nextElement (hc : c.Supplied E.toDemands n count) : Orderly E n E.Issues (nextElement c) := by
  have hiterator : Orderly E n (fun k i => ∀ v ∈ i.elements, E.Issues k v) (c.narrowThis View.iterator) :=
    hc.narrowThisMeeting fun _ p hp i hi v hv hh => by cases p <;> cases hi; exact hp.issued hh v hv
  refine hiterator.bind fun k i hk hi => ?_
  split
  · exact .mild rfl
  rename_i v hv
  have hkeeps : ∀ j (i : Iterator) cursor, (Payload.iterator i).Meets E.toDemands j →
      (Payload.iterator { i with cursor }).Meets E.toDemands j :=
    fun _ _ _ hm => ⟨fun hh v hv => hm.issued hh v hv, trivial⟩
  refine ((hc.mono hk).modifyThis View.mutable_iterator fun j i _ hm => ?_).next
    fun _ => .result (hi v (List.mem_of_getElem? hv))
  exact hkeeps j i _ hm

theorem allOrderly_collectionMethods : AllOrderly E collectionMethods := by
  unfold collectionMethods
  repeat' refine AllOrderly.native rfl (by decide) (fun n c hc => ?_) ?_
  case' refine_2 => exact .nil
  all_goals try simp only [compile, patternSource, splitByPattern, collectionSize, hasNext]
  all_goals
    repeat' first
      | with_reducible first
        | exact hc.stringArgument (by decide) | exact hc.narrowThis _ | exact orderly_display (by assumption)
        | exact orderly_compilePattern _ _ | exact orderly_newStrings _ | exact orderly_availableCharsets c
        | exact orderly_keySet hc | exact orderly_iteratorOf hc | exact orderly_nextElement hc
        | exact .newString _ | refine .allocate ⟨fun _ => ?_, ?_⟩
        | refine hc.afterArgument (by decide) fun _ _ => ?_
        | refine Orderly.next (P := Anything) ?_ fun _ => ?_
      | exact .scalar rfl
      | exact trivial

theorem orderly_finishWith (hc : c.Supplied E.toDemands n count) (last : List UInt8) :
    Orderly E n E.Issues (finishWith c last) :=
  (hc.narrowThis _).next fun _ =>
    (hc.modifyThis View.mutable_digest fun _ _ _ _ => ⟨fun _ => trivial, trivial⟩).next fun _ => orderly_newBytes _

theorem allOrderly_digestMethods : AllOrderly E digestMethods := by
  unfold digestMethods
  repeat' refine AllOrderly.native rfl (by decide) (fun n c hc => ?_) ?_
  case' refine_2 => exact .nil
  all_goals simp only [digestOf, updateDigest, finishDigest, finishDigestWith]
  all_goals
    repeat' first
      | with_reducible first
        | exact hc.stringArgument (by decide) | exact hc.bytesArgument (by decide)
        | exact orderly_finishWith hc _ | exact orderly_hostFailure _ _ | refine .allocate ⟨fun _ => ?_, ?_⟩
        | refine hc.modifyThis View.mutable_digest fun _ _ _ _ => ⟨fun _ => ?_, ?_⟩
        | refine Orderly.next (P := Anything) ?_ fun _ => ?_
      | exact .scalar rfl
      | exact trivial
      | split

theorem orderly_library : AllOrderly E Catalog.library.methods :=
  ((((((((allOrderly_objectMethods.append allOrderly_stringMethods).append allOrderly_builderMethods).append
    allOrderly_throwableMethods).append allOrderly_reflectionMethods).append allOrderly_handleMethods).append
    allOrderly_streamMethods).append allOrderly_collectionMethods).append allOrderly_digestMethods)

end Library

end Jvm
