import Jvm.Proofs.Machine.Composition
import Jvm.Proofs.Machine.Hierarchy
import Jvm.Proofs.Machine.Intents
import Jvm.Proofs.Machine.OrderlyCalls
import Jvm.Proofs.Machine.Returns
import Jvm.Proofs.Machine.Sparing

/-!
# What a native method returns

A native method that answers with a value answers with one of the type that its signature names
(`allTyped_library`). There is one exception: the next element of an iterator is whatever its collection holds, and
that need not be an object. The iterator is the receiver of the call, so the exception does not concern calls on a
class: whoever answers them, a native method or one of the program, the value is of the type that the call expects
(`fits_library`, `fits_invokeWithin`).

The type is read off the characters of the signature (`resultOf`), as each method is registered under a text.
A class name in a descriptor may contain parentheses; that no signature of the library has a second closing one
is what makes the result stand behind it.
-/

namespace Jvm

/-- Types of one shape admit the same values. -/
theorem Value.fits_congr {t t' : FieldType} (h : shapeName t = shapeName t') (v : Value) : v.fits t = v.fits t' := by
  cases t <;> cases t' <;> first | cases v <;> rfl | simp [shapeName] at h

/-- A type of all references. -/
def FieldType.anObject : FieldType := .object "java/lang/Object"

namespace Exec

/-- The action returns only values of the type. -/
def Gives (t : FieldType) (x : Exec Value) : Prop := ∀ w s v s', x w s = .ok v s' → v.fits t = true

namespace Gives

variable {α : Type} {t : FieldType}

theorem pure {v : Value} (h : v.fits t = true) : Gives t (Pure.pure v) := by
  intro _ _ _ _ hx
  cases hx
  exact h

theorem fail (f : Fault) : Gives t (Exec.fail f) := fun _ _ _ _ hx => nomatch hx

theorem ofExcept {r : Except Fault Value} (h : ∀ v, r = .ok v → v.fits t = true) :
    Gives t (liftM r : Exec Value) := by
  intro _ _ v _ hx
  exact h v (ofExcept_ok hx).1

/-- Only the last action counts. -/
theorem bind {x : Exec α} {f : α → Exec Value} (hf : ∀ a, Gives t (f a)) : Gives t (x >>= f) := by
  intro w _ _ _ hx
  obtain ⟨a, u, -, hv⟩ := bind_ok hx
  exact hf a w u _ _ hv

theorem make (name : String) (p : Option Payload) : Gives .anObject (Exec.make name p) := by
  intro w s v s' hx
  obtain ⟨-, hv, -⟩ := Heap.making_ok ((onHeap_make name p).of_ok hx)
  rw [hv]
  rfl

theorem allocateAs (name : String) (p : Payload) : Gives .anObject (Exec.allocateAs name p) := make name (some p)

theorem allocate (p : Payload) : Gives .anObject (Exec.allocate p) := make _ _

theorem newString (text : Units) : Gives .anObject (Exec.newString text) := allocate _

theorem intern (text : Units) : Gives .anObject (Exec.intern text) := by
  intro w s v s' hx
  obtain ⟨_, -, hv, -⟩ | ⟨-, -, hv, -⟩ := Heap.interning_ok ((onHeap_intern text).of_ok hx)
  all_goals
    rw [hv]
    rfl

theorem newReferences (component : String) (elements : List Value) :
    Gives .anObject (Exec.newReferences component elements) := allocate _

theorem newBytes (bs : List UInt8) : Gives .anObject (Exec.newBytes bs) := allocate _

theorem newClass (name : String) : Gives .anObject (Exec.newClass name) := allocate _

theorem newStrings (texts : List String) : Gives .anObject (Exec.newStrings texts) := bind fun _ => newReferences _ _

theorem newTrace (frames : List CallFrame) : Gives .anObject (Exec.newTrace frames) :=
  bind fun _ => newReferences _ _

end Gives

/-- What has contents is an object. -/
theorem gives_afterPayload {t : FieldType} {v : Value} {f : Payload → Exec Value}
    (hf : ∀ p id, v = .ref id → Gives t (f p)) : Gives t (readHeap (·.payload v) >>= f) := by
  intro w s u s' hx
  obtain ⟨p, s₁, hp, hu⟩ := bind_ok hx
  rw [readHeap_apply] at hp
  cases hpayload : s.heap.payload v with
  | error => rw [hpayload] at hp; cases hp
  | ok q =>
    obtain ⟨id, hv, -⟩ := Heap.payload_eq_ok.1 hpayload
    exact hf p id hv _ _ _ _ hu

end Exec

open Exec (Gives)

namespace Call

variable {c : Call} {t : FieldType}

/-- Where the receiver has contents, it is an object. -/
theorem gives_afterNarrow {α : Type} {view : View α} {f : α → Exec Value}
    (hf : ∀ a id, c.this = .ok (.ref id) → Gives t (f a)) : Gives t (c.narrowThis view >>= f) := by
  intro w s v s' hx
  obtain ⟨a, u, hnarrow, hv⟩ := Exec.bind_ok hx
  obtain ⟨this, s₁, hlift, ha⟩ := Exec.bind_ok hnarrow
  obtain ⟨hthis, rfl⟩ := Exec.ofExcept_ok hlift
  rw [Exec.narrow, Exec.readHeap_apply] at ha
  cases hn : s₁.heap.narrow view this with
  | error => rw [hn] at ha; cases ha
  | ok b =>
    obtain ⟨id, -, rfl, -, -⟩ := Heap.narrow_eq_ok.1 hn
    exact hf a id hthis _ _ _ _ hv

theorem gives_this {id : Nat} (h : c.this = .ok (.ref id)) : Gives .anObject (liftM c.this : Exec Value) := by
  refine Gives.ofExcept fun v hv => ?_
  cases h.symm.trans hv
  rfl

theorem gives_constructThis (p : Payload) : Gives .void (c.constructThis p) := by
  refine Gives.bind fun this => Gives.bind fun o => ?_
  split
  · exact .pure rfl
  · exact .bind fun _ => .pure rfl

end Call

namespace Library

/-! ### Signatures -/

/-- The characters of a signature behind the first closing parenthesis. -/
def resultOf (signature : List Char) : List Char := (signature.dropWhile (· != ')')).drop 1

/-- If a signature has one closing parenthesis, the result of its descriptor stands behind it. -/
theorem read_resultOf {signature : List Char} {name descriptor : String} {d : MethodDescriptor}
    (hone : signature.count ')' = 1) (h : name ++ descriptor = String.ofList signature)
    (hd : MethodDescriptor.parse descriptor = .ok d) : FieldType.read (resultOf signature) = .ok (d.returns, []) := by
  obtain ⟨hvalid, rfl⟩ := MethodDescriptor.parse_eq_ok.1 hd
  have hlist : (name.toList ++ '(' :: d.parameters.flatMap FieldType.descriptorChars) ++
      ')' :: d.returns.descriptorChars = signature := by
    rw [← String.toList_ofList (l := signature), ← h, String.toList_append, MethodDescriptor.descriptor,
      String.toList_ofList, List.append_assoc]
  have hnone : ')' ∉ name.toList ++ '(' :: d.parameters.flatMap FieldType.descriptorChars := by
    rw [← List.count_eq_zero]
    rw [← hlist, List.count_append, List.count_cons_self] at hone
    omega
  have hrest : resultOf signature = d.returns.descriptorChars := by
    rw [resultOf, ← hlist, List.dropWhile_append_of_pos]
    · simp
    · rintro c hc
      rw [bne_iff_ne]
      rintro rfl
      exact hnone hc
  have hread := FieldType.read_descriptorChars hvalid.returns []
  rwa [List.append_nil, ← hrest] at hread

/-! ### Lists of native methods -/

/-- The reply to a call is a value of the type, or hands on another call, where the call was on an object. -/
def Suits (c : Call) (t : FieldType) : Reply → Prop
  | .value v => v.fits t = true
  | .forward _ => c.receiver.isSome = true

/-- An element of a collection may be anything. -/
def IsNext (m : NativeMethod) : Prop :=
  m.owner = "java/util/Iterator" ∧ m.signature = "next()Ljava/lang/Object;"

/-- The method replies as its signature says. -/
def Typed (m : NativeMethod) : Prop :=
  ∃ cs, m.signature = String.ofList cs ∧ cs.count ')' = 1 ∧
    ∀ t, FieldType.read (resultOf cs) = .ok (t, []) → ∀ c, (IsNext m → c.receiver = none) →
      ∀ w s r s', m.run c w s = .ok r s' → Suits c t r

def AllTyped (ms : List NativeMethod) : Prop := ∀ m ∈ ms, Typed m

/-- The signature names a type of the same shape. -/
def Names (cs : List Char) (t : FieldType) : Bool :=
  match FieldType.read (resultOf cs) with
  | .ok (t', _) => Value.shapeName t' == Value.shapeName t
  | .error _ => false

namespace AllTyped

variable {owner signature : String} {f : Call → Exec Value} {ms ns : List NativeMethod} {cs : List Char}

theorem nil : AllTyped [] := nofun

theorem append (hms : AllTyped ms) (hns : AllTyped ns) : AllTyped (ms ++ ns) := List.forall_mem_append.2 ⟨hms, hns⟩

theorem cons {m : NativeMethod} (hm : Typed m) (hms : AllTyped ms) : AllTyped (m :: ms) :=
  List.forall_mem_cons.2 ⟨hm, hms⟩

theorem native (t : FieldType) (hcs : signature = String.ofList cs) (hone : cs.count ')' = 1)
    (ht : Names cs t = true) (hf : ∀ c, Gives t (f c)) (hms : AllTyped ms) :
    AllTyped (native owner signature f :: ms) := by
  refine cons ⟨cs, hcs, hone, fun t' ht' c _ w s r s' h => ?_⟩ hms
  rw [Names, ht', beq_iff_eq] at ht
  change (Reply.value <$> f c) w s = _ at h
  rw [map_eq_pure_bind] at h
  obtain ⟨v, u, hv, h⟩ := Exec.bind_ok h
  cases h
  exact (Value.fits_congr ht v).trans (hf c w s v _ hv)

end AllTyped

/-! ### Strings -/

theorem gives_unitAt (units : Units) (index : Int32) : Gives .int (liftM (unitAt units index) : Exec Value) := by
  refine .ofExcept fun v h => ?_
  unfold unitAt at h
  split at h <;> cases h
  rfl

theorem fits_placeValue (place : Option Nat) : (placeValue place).fits .int = true := by cases place <;> rfl

theorem gives_trim (c : Call) : Gives .anObject (trim c) := by
  refine Call.gives_afterNarrow fun units id hthis => ?_
  dsimp only
  split
  · exact Call.gives_this hthis
  · exact .newString _

theorem gives_substringOf {c : Call} {id : Nat} (hthis : c.this = .ok (.ref id)) (units : Units) (first last : Int) :
    Gives .anObject (substringOf c units first last) := by
  refine .bind fun part => ?_
  split
  · exact Call.gives_this hthis
  · exact .newString _

/-- A value is returned as it is if it is an object. -/
theorem gives_valueOf (c : Call) : Gives .anObject (valueOf c) := by
  refine .bind fun v => ?_
  have hnext (hv : v.isReferenceLike = true) (isString : Bool) :
      Gives .anObject (if isString = true then pure v else do Exec.newString (← Exec.display v)) := by
    split
    · exact .pure hv
    · exact .bind fun _ => .newString _
  dsimp only
  split
  · rename_i hnull
    refine .bind fun isString => hnext ?_ isString
    cases v <;> first | rfl | cases hnull
  · refine Exec.gives_afterPayload fun p id hv => ?_
    subst hv
    split <;> exact .bind fun isString => hnext rfl isString

open Exec Call in
theorem allTyped_stringMethods : AllTyped stringMethods := by
  unfold stringMethods
  repeat' first
    | refine AllTyped.native .void rfl (by decide) (by decide) (fun c => ?_) ?_
    | refine AllTyped.native .anObject rfl (by decide) (by decide) (fun c => ?_) ?_
    | refine AllTyped.native .int rfl (by decide) (by decide) (fun c => ?_) ?_
    | exact AllTyped.nil
  all_goals try
    simp only [stringOfRange, stringOfChars, stringOfBytes, stringOfEncoded, internString, stringEquals,
      toCharArray, stringLength, stringHash, stringCharAt, indexOf, indexOfFrom, lastIndexOf, indexOfUnits,
      substring, substringBetween, splitString, valueOfRange, encodeString, stringBytes]
  all_goals
    repeat' first
      | with_reducible first
        | exact .newString _ | exact .intern _ | exact .allocate _ | exact .newStrings _ | exact .newBytes _
        | exact gives_constructThis _ | exact gives_unitAt _ _ | exact gives_trim _ | exact gives_valueOf _
        | exact .pure (fits_placeValue _) | exact gives_substringOf ‹_› _ _ _
        | refine gives_afterNarrow fun _ _ _ => ?_ | refine Gives.bind fun _ => ?_
      | exact .pure rfl
      | split

/-! ### Builders -/

theorem gives_editBuilder (c : Call) (g : Array UInt16 → Array UInt16) : Gives .anObject (editBuilder c g) := by
  refine Gives.bind fun this => ?_
  intro w s v s' h
  obtain ⟨_, _, hmodify, h⟩ := Exec.bind_ok h
  obtain ⟨id, -, rfl, -, -⟩ := Exec.modify_ok hmodify
  cases h
  rfl

open Exec Call in
theorem allTyped_builderMethods : AllTyped builderMethods := by
  unfold builderMethods
  repeat' first
    | refine AllTyped.native .void rfl (by decide) (by decide) (fun c => ?_) ?_
    | refine AllTyped.native .anObject rfl (by decide) (by decide) (fun c => ?_) ?_
    | refine AllTyped.native .int rfl (by decide) (by decide) (fun c => ?_) ?_
    | exact AllTyped.nil
  all_goals
    simp only [emptyBuilder, builderOf, builderOfCapacity, appendInt, appendChar, appendString, appendObject,
      appendUnits, builderText, builderLength, builderCharAt, setCharAt, reverse, insertString]
  all_goals
    repeat' first
      | with_reducible first
        | exact .fail _ | exact .newString _ | exact gives_constructThis _ | exact gives_editBuilder _ _
        | refine Gives.bind fun _ => ?_
      | exact .pure rfl
      | split

/-! ### Exceptions and objects -/

open Exec Call in
theorem allTyped_throwableMethods : AllTyped throwableMethods := by
  simp only [throwableMethods, List.flatMap_cons, List.flatMap_nil, List.append_nil, List.cons_append,
    List.nil_append]
  repeat' first
    | refine AllTyped.native .void rfl (by decide) (by decide) (fun c => ?_) ?_
    | refine AllTyped.native .anObject rfl (by decide) (by decide) (fun c => ?_) ?_
    | exact AllTyped.nil
  all_goals
    simp only [plainThrowable, throwableOfMessage, throwableTrace, throwableText, constructThrowable]
  all_goals
    repeat' first
      | with_reducible first
        | exact .newString _ | exact .newTrace _ | exact gives_constructThis _ | refine Gives.bind fun _ => ?_
      | split

theorem gives_parseLongText (text : Units) (radix : Int32) :
    Gives .long (liftM (parseLongText text radix) : Exec Value) := by
  refine .ofExcept fun v h => ?_
  unfold parseLongText at h
  cases hn : parseInteger text radix (-0x8000000000000000) 0x8000000000000000 with
  | error => rw [hn] at h; cases h
  | ok n => rw [hn] at h; cases h; rfl

theorem gives_parseIntText (text : Units) : Gives .int (liftM (parseIntText text) : Exec Value) := by
  refine .ofExcept fun v h => ?_
  unfold parseIntText at h
  cases hn : parseInteger text 10 (-0x80000000) 0x80000000 with
  | error => rw [hn] at h; cases h
  | ok n => rw [hn] at h; cases h; rfl

open Exec Call in
theorem allTyped_objectMethods : AllTyped objectMethods := by
  unfold objectMethods
  repeat' first
    | refine AllTyped.native .void rfl (by decide) (by decide) (fun c => ?_) ?_
    | refine AllTyped.native .anObject rfl (by decide) (by decide) (fun c => ?_) ?_
    | refine AllTyped.native .int rfl (by decide) (by decide) (fun c => ?_) ?_
    | refine AllTyped.native .long rfl (by decide) (by decide) (fun c => ?_) ?_
    | exact AllTyped.nil
  all_goals try
    simp only [getClass, currentTimeMillis, arraycopy, currentThread, threadStackTrace, frameClassName,
      frameMethodName, frameLineNumber, parseLong, parseLongRadix, parseInt, languageAccess, constantPoolOf,
      constantPoolSize, hostFailure]
  all_goals
    repeat' first
      | with_reducible first
        | exact .fail _ | exact .allocate _ | exact .allocateAs _ _ | exact .newString _ | exact .newClass _
        | exact .newTrace _ | exact gives_constructThis _ | exact gives_parseLongText _ _
        | exact gives_parseIntText _ | refine Gives.bind fun _ => ?_
      | exact .pure rfl
      | split

/-! ### Reflection and method handles -/

/-- Methods are called by reflection on the object that stands for the method. -/
theorem forwards_invokeMethod {c : Call} {w : World} {s s' : State} {r : Reply}
    (h : invokeMethod c w s = .ok r s') : c.receiver.isSome = true ∧ ∃ next, r = .forward next := by
  obtain ⟨m, s₁, hm, h⟩ := Exec.bind_ok h
  have hreceiver : c.receiver.isSome = true := by
    obtain ⟨this, _, hthis, -⟩ := Exec.bind_ok hm
    have hthis := (Exec.ofExcept_ok hthis).1
    unfold Call.this at hthis
    split at hthis <;> cases hthis
    rw [‹c.receiver = some this›, Option.isSome_some]
  refine ⟨hreceiver, ?_⟩
  obtain ⟨d, _, -, h⟩ := Exec.bind_ok h
  cases hprimitive : (d.parameters ++ [d.returns]).find? (fun t => !t.isReference && !t.isVoid) with
  | some t =>
    simp only [hprimitive] at h
    cases h
  | none =>
    simp only [hprimitive] at h
    obtain ⟨arguments, _, -, h⟩ := Exec.bind_ok h
    split at h
    · cases h
    obtain ⟨_, _, -, h⟩ := Exec.bind_ok h
    split at h
    · cases h
      exact ⟨_, rfl⟩
    obtain ⟨receiver, _, -, h⟩ := Exec.bind_ok h
    split at h <;> cases h
    exact ⟨_, rfl⟩

theorem typed_invokeMethod (owner : String) : Typed ⟨owner,
    "invoke(Ljava/lang/Object;[Ljava/lang/Object;)Ljava/lang/Object;", invokeMethod⟩ := by
  refine ⟨_, rfl, by decide, fun _ _ c _ w s r s' h => ?_⟩
  obtain ⟨hreceiver, _, rfl⟩ := forwards_invokeMethod h
  exact hreceiver

open Exec Call in
theorem allTyped_reflectionMethods : AllTyped reflectionMethods := by
  unfold reflectionMethods
  repeat' first
    | refine AllTyped.native .void rfl (by decide) (by decide) (fun c => ?_) ?_
    | refine AllTyped.native .anObject rfl (by decide) (by decide) (fun c => ?_) ?_
    | refine AllTyped.native .int rfl (by decide) (by decide) (fun c => ?_) ?_
    | refine AllTyped.cons (typed_invokeMethod _) ?_
    | exact AllTyped.nil
  all_goals try
    simp only [forName, getClassName, getDeclaredMethod, getDeclaredMethods, getDeclaredFields, getClassLoader,
      getSuperclass, getInterfaces, getProtectionDomain, getCodeSource, getLocation, openStream, methodName,
      getReturnType, getParameterTypes, setAccessible, methodHash, fieldName, getType, hostFailure]
  all_goals
    repeat' first
      | with_reducible first
        | exact .fail _ | exact .allocate _ | exact .allocateAs _ _ | exact .newString _ | exact .newClass _
        | exact .newReferences _ _ | refine Gives.bind fun _ => ?_
      | exact .pure rfl
      | split

open Exec Call in
theorem allTyped_handleMethods : AllTyped handleMethods := by
  unfold handleMethods
  -- the signatures of the two lookups are put together of two texts
  refine AllTyped.native .anObject rfl (by decide) (by decide) (fun c => ?_) <|
    AllTyped.native .anObject String.ofList_append.symm (by decide) (by decide) (fun c => ?_) <|
    AllTyped.native .anObject String.ofList_append.symm (by decide) (by decide) (fun c => ?_) <|
    AllTyped.native .anObject rfl (by decide) (by decide) (fun c => ?_) <|
    AllTyped.native .void rfl (by decide) (by decide) (fun c => ?_) .nil
  all_goals simp only [methodTypeOf, findHandle, handleAsType, callSiteOf]
  all_goals
    repeat' first
      | with_reducible first
        | exact .fail _ | exact .allocate _ | exact gives_constructThis _ | exact gives_this ‹_›
        | refine gives_afterNarrow fun _ _ _ => ?_ | refine Gives.bind fun _ => ?_
      | split

/-! ### Streams -/

open Exec Call in
theorem allTyped_streamMethods : AllTyped streamMethods := by
  unfold streamMethods
  repeat' first
    | refine AllTyped.native .void rfl (by decide) (by decide) (fun c => ?_) ?_
    | refine AllTyped.native .anObject rfl (by decide) (by decide) (fun c => ?_) ?_
    | refine AllTyped.native .int rfl (by decide) (by decide) (fun c => ?_) ?_
    | exact AllTyped.nil
  all_goals
    simp only [close, emptySink, sinkOfCapacity, writeByte, writeBytes, writeRange, sinkBytes, sinkSize, readSource,
      readByte, openArchive, nextEntry, closeEntry, readArchive, entryName, entryExtra, hostFailure]
  all_goals
    repeat' first
      | with_reducible first
        | exact .fail _ | exact .allocate _ | exact .newString _ | exact .newBytes _ | exact gives_constructThis _
        | refine Gives.bind fun _ => ?_
      | exact .pure rfl
      | split

/-! ### Patterns, collections and digests -/

theorem typed_nextElement :
    Typed (native "java/util/Iterator" "next()Ljava/lang/Object;" nextElement) := by
  refine ⟨_, rfl, by decide, fun _ _ c hc w s r s' h => ?_⟩
  -- there is no receiver, and so no element
  change (Reply.value <$> nextElement c) w s = _ at h
  rw [map_eq_pure_bind, nextElement, Call.narrowThis, Call.this, hc ⟨rfl, rfl⟩] at h
  cases h

open Exec Call in
theorem allTyped_collectionMethods : AllTyped collectionMethods := by
  unfold collectionMethods
  repeat' first
    | refine AllTyped.cons typed_nextElement ?_
    | refine AllTyped.native .anObject rfl (by decide) (by decide) (fun c => ?_) ?_
    | refine AllTyped.native .int rfl (by decide) (by decide) (fun c => ?_) ?_
    | exact AllTyped.nil
  all_goals
    simp only [compile, patternSource, splitByPattern, availableCharsets, keySet, iteratorOf, collectionSize, hasNext]
  all_goals
    repeat' first
      | with_reducible first
        | exact .allocate _ | exact .allocateAs _ _ | exact .newString _ | exact .newStrings _
        | refine Gives.bind fun _ => ?_
      | exact .pure rfl

open Exec Call in
theorem allTyped_digestMethods : AllTyped digestMethods := by
  unfold digestMethods
  repeat' first
    | refine AllTyped.native .void rfl (by decide) (by decide) (fun c => ?_) ?_
    | refine AllTyped.native .anObject rfl (by decide) (by decide) (fun c => ?_) ?_
    | exact AllTyped.nil
  all_goals simp only [digestOf, updateDigest, finishDigest, finishDigestWith, finishWith, hostFailure]
  all_goals
    repeat' first
      | with_reducible first
        | exact .fail _ | exact .allocate _ | exact .newBytes _ | refine Gives.bind fun _ => ?_
      | exact .pure rfl
      | split

/-- All native methods reply as their signatures say. -/
theorem allTyped_library : AllTyped Catalog.library.methods :=
  ((((((((allTyped_objectMethods.append allTyped_stringMethods).append allTyped_builderMethods).append
    allTyped_throwableMethods).append allTyped_reflectionMethods).append allTyped_handleMethods).append
    allTyped_streamMethods).append allTyped_collectionMethods).append allTyped_digestMethods)

/-- A native method that is called on a class answers with a value of the type that the call expects. -/
theorem fits_library {m : NativeMethod} (hm : m ∈ Catalog.library.methods) {c : Call} (hc : c.receiver = none)
    (hsignature : m.signature = c.member.signature) {d : MethodDescriptor}
    (hd : MethodDescriptor.parse c.member.descriptor = .ok d) {w : World} {s s' : State} {r : Reply}
    (h : m.run c w s = .ok r s') : ∃ v, r = .value v ∧ v.fits d.returns = true := by
  obtain ⟨cs, hcs, hone, htyped⟩ := allTyped_library m hm
  have hread := read_resultOf hone (hsignature.symm.trans hcs) hd
  have hsuits := htyped d.returns hread c (fun _ => hc) w s r s' h
  cases r with
  | value v => exact ⟨v, rfl, hsuits⟩
  | forward next =>
    rw [Suits, hc] at hsuits
    cases hsuits

end Library

/-- How a call is answered: by a value of the type that its descriptor names, or by a method of that descriptor. -/
def Answer.Suits (c : Call) (t : FieldType) : Answer → Prop
  | value v => v.fits t = true
  | execute _ m _ _ => m.descriptor = c.member.descriptor
  | handOn _ => False

namespace Provider

variable {c : Call} {d : MethodDescriptor} {w : World} {s s' : State} {a : Answer}

theorem suits_answerNative (hc : c.receiver = none) (hd : MethodDescriptor.parse c.member.descriptor = .ok d)
    (h : (native Catalog.library).answer c w s = .ok a s') : a.Suits c d.returns := by
  rw [answer] at h
  cases hm : Catalog.library.find? c.member.owner c.member.signature with
  | none => simp only [hm] at h; cases h
  | some m =>
    simp only [hm] at h
    obtain ⟨r, s₁, hrun, h⟩ := Exec.bind_ok h
    obtain ⟨-, hsignature⟩ := Catalog.key_of_find? hm
    obtain ⟨v, rfl, hfits⟩ := Library.fits_library (List.mem_of_find?_eq_some hm) hc hsignature hd hrun
    cases h
    exact hfits

theorem suits_answerMapped (hc : c.receiver = none) (h : mapped.answer c w s = .ok a s') (t : FieldType) :
    a.Suits c t := by
  rw [answer] at h
  obtain ⟨_, _, hw, h⟩ := Exec.bind_ok h
  cases hw
  obtain ⟨_, _, hs, h⟩ := Exec.bind_ok h
  cases hs
  dsimp only at h
  cases htarget : w.program.target? s.heap c with
  | none => simp only [htarget] at h; cases h
  | some found =>
    obtain ⟨m, hm, hdescriptor, -⟩ := ClassDictionary.method_of_target? htarget
    simp only [htarget, hm] at h
    split at h
    · cases h
      exact hdescriptor
    -- there is no receiver for a method of objects
    · rw [Call.this, hc] at h
      cases h

theorem suits_answer {p : Provider} (hp : p.Ordinary) (hc : c.receiver = none)
    (hd : MethodDescriptor.parse c.member.descriptor = .ok d) (h : p.answer c w s = .ok a s') :
    a.Suits c d.returns := by
  cases p with
  | native catalog =>
    obtain rfl : catalog = Catalog.library := hp
    exact suits_answerNative hc hd h
  | comparison => cases h
  | mapped => exact suits_answerMapped hc h _

end Provider

namespace Chain

variable {chain : Chain} {m : MemberRef} {arguments : List Value} {d : MethodDescriptor} {fuel : Nat} {w : World}
  {s s' : State} {v : Value}

/-- A call on a class that returns at all returns a value of the type that its descriptor names. -/
theorem fits_invokeWithin (hchain : chain.Ordinary) (hd : MethodDescriptor.parse m.descriptor = .ok d)
    (h : chain.invokeWithin fuel (.onClass m arguments) w s = .ok v s') : v.fits d.returns = true := by
  cases fuel with
  | zero => rw [invokeWithin] at h; cases h
  | succ fuel =>
    rw [invokeWithin_eq] at h
    obtain ⟨answer, s₁, hanswer, hv⟩ := Exec.bind_ok h
    rw [answer_apply] at hanswer
    cases hp : chain.provider? w.program s.heap (.onClass m arguments) with
    | none => simp only [hp] at hanswer; cases hanswer
    | some p =>
      simp only [hp] at hanswer
      have hsuits := Provider.suits_answer (hchain p (List.mem_of_find?_eq_some hp)) rfl hd hanswer
      cases answer with
      | value u =>
        cases hv
        exact hsuits
      | execute owner m' arguments' receiver =>
        obtain ⟨d', hd', -, hfits⟩ := fits_executeWithin hv
        rw [show m'.descriptor = m.descriptor from hsuits, hd] at hd'
        cases hd'
        exact hfits
      | handOn => exact hsuits.elim

end Chain

end Jvm
