import Jvm.Library
import Jvm.Proofs.Machine.Alike

/-!
# The library is built like any action

Every native method is built from the actions that a machine offers (`alike_library`), and only the call of
a method by reflection hands on a call: that of a method that an object stands for. First come the helpers
that make objects, since an array of references is in order only if what was put into it are references;
the methods follow list by list.
-/

namespace Jvm

open Exec

variable {E : Setting}

/-! ### Reading arguments and making objects -/

namespace Call

variable (c : Call)

theorem alike_stringArgument (n : Nat) : Alike E Any (c.stringArgument n) (c.stringArgument n) :=
  (Alike.ofExcept _).next fun _ => .narrow _ _

theorem alike_narrowThis {α : Type} (view : View α) :
    Alike E Any (c.narrowThis view) (c.narrowThis view) :=
  (Alike.ofExcept _).next fun _ => .narrow _ _

theorem alike_modifyThis {α : Type} {view : View α} (hv : view.Mutable)
    (hk : view.kind ≠ View.record.kind) {f : α → α}
    (hf : ∀ a, (view.make a).Fits E.toPremises → (view.make (f a)).Fits E.toPremises) :
    Alike E Any (c.modifyThis view f) (c.modifyThis view f) :=
  (Alike.ofExcept _).next fun _ => .modify hv (fun h => absurd h hk) _ hf

theorem alike_bytesArgument (n : Nat) : Alike E Any (c.bytesArgument n) (c.bytesArgument n) :=
  (Alike.ofExcept _).next fun _ => (Alike.narrow _ _).next fun _ => .ofExcept _

theorem alike_referencesArgument (n : Nat) :
    Alike E Any (c.referencesArgument n) (c.referencesArgument n) := by
  refine (Alike.ofExcept _).next fun v => ?_
  split
  · exact .value _
  · exact (Alike.narrow _ _).next fun _ => .ofExcept _

theorem alike_constructThis {p : Payload} (hp : p.New E.toPremises) :
    Alike E Any (c.constructThis p) (c.constructThis p) := by
  refine (Alike.ofExcept _).next fun this => (Alike.look _).next fun o => ?_
  split
  · exact .value _
  · exact (Alike.construct this _ hp).next fun _ => .value _

end Call

namespace Exec

theorem alike_hostFailure {α : Type} (operation message : String) :
    Alike E (Any (α := α)) (hostFailure operation message) (hostFailure operation message) := .fail _

theorem alike_newReferences (component : String) {elements : List Value}
    (h : ∀ v ∈ elements, v.isReferenceLike = true) :
    Alike E (·.isReferenceLike = true) (newReferences component elements)
      (newReferences component elements) := by
  refine Alike.allocate (p := .array (.reference _ elements.toArray)) fun _ v hv => h v ?_
  simpa using hv

theorem alike_references {γ : Type} (component : String) {f : γ → Exec Value} {cs : List γ}
    (hf : ∀ c ∈ cs, Alike E (·.isReferenceLike = true) (f c) (f c)) :
    Alike E Any (do newReferences component (← cs.mapM f)) (do newReferences component (← cs.mapM f)) :=
  (Alike.mapM hf).bind fun _ hes => (alike_newReferences component hes).any

theorem alike_newStrings (texts : List String) : Alike E Any (newStrings texts) (newStrings texts) :=
  alike_references _ fun _ _ => .newString _

theorem alike_newTrace (frames : List CallFrame) : Alike E Any (newTrace frames) (newTrace frames) :=
  alike_references _ fun f _ => .allocate (p := .traceElement f) trivial

theorem alike_newBytes (bs : List UInt8) : Alike E Any (newBytes bs) (newBytes bs) :=
  (Alike.allocate (p := .array (.ofBytes bs)) fun _ => trivial).any

theorem alike_newClass (name : String) :
    Alike E (·.isReferenceLike = true) (newClass name) (newClass name) := .allocate trivial

theorem alike_ofDescriptor {α : Type} (r : Except DescriptorError α) :
    Alike E Any (ofDescriptor r) (ofDescriptor r) := by
  cases r with
  | ok a => exact .value a
  | error e => exact .failWith _

theorem alike_display (v : Value) : Alike E Any (Exec.display v) (Exec.display v) := by
  unfold Exec.display
  split
  · exact .value _
  · refine (Alike.look _).next fun o => ?_
    split
    · exact .value _
    · exact .fail _

end Exec

namespace Library

/-- A member by class and signature is the method by which methods are called by reflection. -/
def IsInvoker (owner signature : String) : Prop :=
  owner = "java/lang/reflect/Method" ∧
    signature = "invoke(Ljava/lang/Object;[Ljava/lang/Object;)Ljava/lang/Object;"

/-- A native method that hands on a call is the one that calls methods by reflection, and the call is one of
a method that an object stands for. -/
def Answers (E : Setting) (m : NativeMethod) : Reply → Prop
  | .value _ => True
  | .forward next => IsInvoker m.owner m.signature ∧ E.reflects next.member

/-- All methods of a list are built like any action. -/
def AllAlike (E : Setting) (ms : List NativeMethod) : Prop :=
  ∀ m ∈ ms, ∀ c, Alike E (Answers E m) (m.run c) (m.run c)

theorem AllAlike.nil : AllAlike E [] := nofun

theorem AllAlike.cons {m : NativeMethod} {ms : List NativeMethod}
    (hm : ∀ c, Alike E (Answers E m) (m.run c) (m.run c)) (hms : AllAlike E ms) : AllAlike E (m :: ms) := by
  intro m' hm'
  rcases List.mem_cons.1 hm' with rfl | hm'
  · exact hm
  · exact hms m' hm'

theorem AllAlike.append {ms ns : List NativeMethod} (hms : AllAlike E ms) (hns : AllAlike E ns) :
    AllAlike E (ms ++ ns) := by
  intro m hm
  rcases List.mem_append.1 hm with hm | hm
  · exact hms m hm
  · exact hns m hm

theorem AllAlike.native {owner signature : String} {f : Call → Exec Value} {ms : List NativeMethod}
    (hf : ∀ c, Alike E Any (f c) (f c)) (hms : AllAlike E ms) :
    AllAlike E (native owner signature f :: ms) :=
  hms.cons fun c => (hf c).map fun _ _ => trivial

/-! ### Strings -/

theorem alike_charsArgument (c : Call) (n : Nat) :
    Alike E Any (charsArgument c n) (charsArgument c n) :=
  (Alike.ofExcept _).next fun _ => (Alike.narrow _ _).next fun _ => .ofExcept _

theorem alike_charRange (c : Call) : Alike E Any (charRange c) (charRange c) :=
  (alike_charsArgument c 0).next fun _ => (Alike.ofExcept _).next fun _ =>
    (Alike.ofExcept _).next fun _ => .ofExcept _

theorem alike_charsetArgument (c : Call) (n : Nat) :
    Alike E Any (charsetArgument c n) (charsetArgument c n) := by
  refine (c.alike_stringArgument n).next fun name => ?_
  dsimp only
  split
  · exact .value _
  · exact .fail _

theorem alike_compilePattern (operation source : String) :
    Alike E Any (compilePattern operation source) (compilePattern operation source) := by
  unfold compilePattern
  split
  · exact .value _
  · exact .fail _

theorem alike_substringOf (c : Call) (units : Units) (first last : Int) :
    Alike E Any (substringOf c units first last) (substringOf c units first last) := by
  refine (Alike.ofExcept _).next fun part => ?_
  split
  · exact .ofExcept _
  · exact (Alike.newString _).any

theorem allAlike_stringMethods : AllAlike E stringMethods := by
  unfold stringMethods
  repeat' refine AllAlike.native (fun c => ?_) ?_
  case' refine_2 => exact .nil
  all_goals
    simp only [stringOfRange, stringOfChars, stringOfBytes, stringOfEncoded, internString, stringEquals,
      trim, toCharArray, stringLength, stringHash, stringCharAt, indexOf, indexOfFrom, lastIndexOf,
      substring, substringBetween, splitString, valueOf, valueOfRange, encodeString, stringBytes]
  all_goals
    repeat' first
      | with_reducible first
        | exact .value _ | exact .fail _ | exact .look _
        | exact .ofExcept _ | exact c.alike_stringArgument _ | exact c.alike_narrowThis _
        | exact c.alike_bytesArgument _ | exact alike_charsArgument c _ | exact alike_charRange c
        | exact alike_charsetArgument c _ | exact alike_compilePattern _ _
        | exact alike_substringOf c _ _ _ | exact alike_newStrings _ | exact alike_newBytes _
        | exact alike_display _ | exact (Alike.newString _).any | exact (Alike.intern _).any
        | refine c.alike_constructThis ?_ | refine (Alike.allocate ?_).any
        | refine Alike.next ?_ fun _ => ?_
      | exact fun _ => trivial
      | exact trivial
      | split

/-! ### Builders -/

theorem alike_editBuilder (c : Call) (f : Array UInt16 → Array UInt16) :
    Alike E Any (editBuilder c f) (editBuilder c f) :=
  (Alike.ofExcept _).next fun this =>
    (Alike.modify View.mutable_builder (fun h => absurd h (by decide)) this fun _ _ => trivial).next fun _ => .value _

theorem alike_textArgument (c : Call) (n : Nat) : Alike E Any (textArgument c n) (textArgument c n) := by
  refine (Alike.ofExcept _).next fun v => ?_
  split
  · exact .value _
  · exact c.alike_stringArgument n

theorem allAlike_builderMethods : AllAlike E builderMethods := by
  unfold builderMethods
  repeat' refine AllAlike.native (fun c => ?_) ?_
  case' refine_2 => exact .nil
  all_goals
    simp only [emptyBuilder, builderOf, builderOfCapacity, appendInt, appendChar, appendString, appendObject,
      appendUnits, builderText, builderLength, builderCharAt, setCharAt, reverse, insertString]
  all_goals
    repeat' first
      | with_reducible first
        | exact .value _ | exact .fail _ | exact .ofExcept _ | exact c.alike_stringArgument _
        | exact c.alike_narrowThis _ | exact alike_editBuilder c _ | exact alike_textArgument c _
        | exact alike_display _ | exact (Alike.newString _).any
        | refine c.alike_constructThis ?_ | refine Alike.next ?_ fun _ => ?_
      | exact trivial
      | exact .ofExcept _
      | split

/-! ### Exceptions -/

theorem alike_constructThrowable (c : Call) (message : Option Units) :
    Alike E Any (constructThrowable c message) (constructThrowable c message) := by
  refine Alike.get (fun s _ => c.alike_constructThis trivial) fun s t hf _ _ => ?_
  rw [hf]

theorem allAlike_throwableMethods : AllAlike E throwableMethods := by
  simp only [throwableMethods, List.flatMap_cons, List.flatMap_nil, List.append_nil, List.cons_append,
    List.nil_append]
  repeat' refine AllAlike.native (fun c => ?_) ?_
  case' refine_2 => exact .nil
  all_goals simp only [plainThrowable, throwableOfMessage, throwableTrace, throwableText]
  all_goals
    repeat' first
      | with_reducible first
        | exact .ofExcept _ | exact c.alike_stringArgument _ | exact c.alike_narrowThis _
        | exact alike_constructThrowable c _ | exact alike_newTrace _ | exact alike_display _
        | exact (Alike.newString _).any | refine Alike.next ?_ fun _ => ?_
      | split

/-! ### Objects -/

theorem alike_arraycopy (c : Call) : Alike E Any (arraycopy c) (arraycopy c) := by
  refine (Alike.ofExcept _).next fun _ => (Alike.narrowArray _).bind fun source hs => ?_
  refine (Alike.ofExcept _).next fun start => (Alike.ofExcept _).next fun destination => ?_
  refine (Alike.ofExcept _).next fun offset => (Alike.ofExcept _).next fun length => ?_
  refine (Alike.narrowArray _).bind fun target ht => ?_
  refine (Alike.ofOk fun copied h (hsound : E.sound) =>
    ArrayObject.sound_copyFrom (ht hsound) (hs hsound) h).bind fun copied hc => ?_
  exact (Alike.modify View.mutable_array (fun h => absurd h (by decide)) destination fun _ _ => hc).next
    fun _ => .value _

theorem alike_currentTimeMillis (c : Call) : Alike E Any (currentTimeMillis c) (currentTimeMillis c) := by
  refine Alike.clock.next fun time => ?_
  split
  · exact alike_hostFailure _ _
  · exact .value _

/-- The frame of the question is on the call stack only while that is read. -/
theorem threadStackTrace_eq (c : Call) : threadStackTrace c = (do
    let w ← read
    let s ← get
    if w.limits.callDepth ≤ s.frames.length then
      Exec.fail (.callDepth (s.frames.length + 1) w.limits.callDepth)
    else Exec.newTrace (CallFrame.ofMethod "java/lang/Thread" "getStackTrace" 0 :: s.frames)) := by
  funext w s
  rw [threadStackTrace, Exec.bind_apply, Exec.pushFrame_apply, Exec.bind_apply, Exec.read_apply]
  dsimp only
  rw [Exec.bind_apply, Exec.get_apply]
  dsimp only
  split
  · rename_i h
    split at h
    · cases h
    · cases h
      rw [if_neg ‹_›]
      rfl
  · rename_i h
    split at h
    · cases h
      rw [if_pos ‹_›]
      rfl
    · cases h

theorem alike_threadStackTrace (c : Call) : Alike E Any (threadStackTrace c) (threadStackTrace c) := by
  rw [threadStackTrace_eq]
  refine Alike.read.next fun w => Alike.get (fun s _ => ?_) fun s t hf _ _ => by rw [hf]
  split
  · exact .fail _
  · exact alike_newTrace _

theorem allAlike_objectMethods : AllAlike E objectMethods := by
  unfold objectMethods
  repeat' refine AllAlike.native (fun c => ?_) ?_
  case' refine_2 => exact .nil
  all_goals try
    simp only [getClass, currentThread, frameClassName, frameMethodName,
      frameLineNumber, parseLong, parseLongRadix, parseInt, languageAccess, constantPoolOf,
      constantPoolSize]
  all_goals
    repeat' first
      | with_reducible first
        | exact .value _ | exact .fail _ | exact .ofExcept _ | exact .read | exact .className _ | exact .narrow _ _
        | exact c.alike_stringArgument _ | exact c.alike_narrowThis _
        | exact alike_arraycopy c | exact alike_currentTimeMillis c | exact alike_threadStackTrace c
        | exact (alike_newClass _).any | exact (Alike.newString _).any
        | refine c.alike_constructThis ?_ | refine (Alike.allocate ?_).any
        | refine (Alike.allocateAs _ ?_).any | refine Alike.next ?_ fun _ => ?_
      | exact trivial
      | split

/-! ### Reflection -/

/-- The methods of a class that is found are methods that objects may stand for. -/
theorem alike_programClass (name : String) :
    Alike E (fun cls => ∀ m ∈ cls.methods, E.reflects ⟨name, m.name, m.descriptor⟩) (programClass name)
      (programClass name) := by
  refine Alike.world.bind fun w hw => ?_
  split
  · exact .pure fun m hm => (hw name _ ‹_› m hm).1
  · exact .fail _

theorem alike_methodTypes (m : MethodObject) : Alike E Any (methodTypes m) (methodTypes m) :=
  alike_ofDescriptor _

theorem alike_getDeclaredMethod (c : Call) : Alike E Any (getDeclaredMethod c) (getDeclaredMethod c) := by
  refine (c.alike_narrowThis _).next fun owner => (c.alike_stringArgument 0).next fun name => ?_
  refine (c.alike_referencesArgument 1).next fun vs => ?_
  refine (Alike.mapM fun v _ => .narrow View.classObject v).any.next fun types => ?_
  refine (alike_programClass owner).bind fun cls hcls => ?_
  split
  · rename_i m hm
    exact (Alike.allocate (p := .method { member := ⟨owner, m.name, m.descriptor⟩ })
      (hcls m (List.mem_of_find?_eq_some hm))).any
  · exact .fail _

theorem alike_getDeclaredMethods (c : Call) :
    Alike E Any (getDeclaredMethods c) (getDeclaredMethods c) :=
  (c.alike_narrowThis _).next fun owner => (alike_programClass owner).bind fun _ hcls =>
    alike_references _ fun m hm =>
      .allocate (p := .method { member := ⟨owner, m.name, m.descriptor⟩ }) (hcls m (List.mem_filter.1 hm).1)

theorem alike_getDeclaredFields (c : Call) : Alike E Any (getDeclaredFields c) (getDeclaredFields c) :=
  (c.alike_narrowThis _).next fun owner => (alike_programClass owner).any.next fun _ =>
    alike_references _ fun f _ => .allocate (p := .field ⟨owner, f.name, f.descriptor⟩) trivial

theorem alike_getInterfaces (c : Call) : Alike E Any (getInterfaces c) (getInterfaces c) :=
  (c.alike_narrowThis _).next fun name => (alike_programClass name).any.next fun _ =>
    alike_references _ fun above _ => alike_newClass above

theorem alike_getParameterTypes (c : Call) : Alike E Any (getParameterTypes c) (getParameterTypes c) :=
  (c.alike_narrowThis _).next fun m => (alike_methodTypes m).next fun _ =>
    alike_references _ fun t _ => alike_newClass t.internalName

/-- The call that is handed on is one of the method that the receiver stands for. -/
theorem alike_invokeMethod {owner signature : String} (h : IsInvoker owner signature) (c : Call) :
    Alike E (Answers E ⟨owner, signature, invokeMethod⟩) (invokeMethod c) (invokeMethod c) := by
  have hreceiver : Alike E (fun m => E.reflects m.member) (c.narrowThis View.method)
      (c.narrowThis View.method) :=
    (Alike.ofExcept _).next fun _ => .narrowFitting (fun p hp m hm => by cases p <;> cases hm; exact hp) _
  refine hreceiver.bind fun m hm => (alike_methodTypes m).next fun d => ?_
  split
  · exact .fail _
  refine (c.alike_referencesArgument 1).next fun arguments => ?_
  split
  · exact .fail _
  refine Alike.read.next fun w => ?_
  dsimp only
  split
  · exact .pure ⟨h, hm⟩
  refine (Alike.ofExcept _).next fun receiver => ?_
  split
  · exact .fail _
  · exact .pure ⟨h, hm⟩

theorem allAlike_reflectionMethods : AllAlike E reflectionMethods := by
  unfold reflectionMethods
  repeat' refine AllAlike.native (fun c => ?_) ?_
  case' refine_2 => refine AllAlike.cons (alike_invokeMethod ⟨rfl, rfl⟩) ?_
  repeat' refine AllAlike.native (fun c => ?_) ?_
  case' refine_2 => exact .nil
  all_goals try
    simp only [forName, getClassName, getClassLoader, getSuperclass, thisClass, getProtectionDomain,
      getCodeSource, getLocation, openStream, methodName, getReturnType, setAccessible, methodHash,
      fieldName, getType]
  all_goals
    repeat' first
      | with_reducible first
        | exact .value _ | exact .fail _ | exact .ofExcept _ | exact .read
        | exact c.alike_stringArgument _ | exact c.alike_narrowThis _
        | exact (alike_programClass _).any | exact alike_methodTypes _ | exact alike_ofDescriptor _
        | exact alike_getDeclaredMethod c | exact alike_getDeclaredMethods c
        | exact alike_getDeclaredFields c | exact alike_getInterfaces c
        | exact alike_getParameterTypes c | exact (alike_newClass _).any
        | exact (Alike.newString _).any | exact alike_hostFailure _ _ | refine c.alike_modifyThis ?_ (by decide) ?_
        | refine (Alike.allocate ?_).any | refine (Alike.allocateAs _ ?_).any
        | refine Alike.next ?_ fun _ => ?_
      | exact View.mutable_method
      | exact fun _ h => h
      | exact trivial
      | split

/-! ### Method handles -/

theorem allAlike_handleMethods : AllAlike E handleMethods := by
  unfold handleMethods
  repeat' refine AllAlike.native (fun c => ?_) ?_
  case' refine_2 => exact .nil
  all_goals simp only [methodTypeOf, findHandle, handleAsType, callSiteOf]
  all_goals
    repeat' first
      | with_reducible first
        | exact .ofExcept _ | exact .fail _ | exact .narrow _ _ | exact c.alike_stringArgument _
        | exact c.alike_narrowThis _ | refine c.alike_constructThis ?_
        | refine (Alike.allocate ?_).any | refine Alike.next ?_ fun _ => ?_
      | exact trivial
      | split

/-! ### Streams -/

theorem alike_readInto (source : Option ByteSource) (buffer : Value) (offset length : Int32) :
    Alike E Any (readInto source buffer offset length) (readInto source buffer offset length) := by
  unfold readInto
  repeat' first
    | with_reducible first
      | exact .value _ | exact .ofExcept _ | exact .narrow _ _ | exact .fail _
      | refine .modify View.mutable_array (fun h => absurd h (by decide)) _ ?_ | refine Alike.next ?_ fun _ => ?_
    | exact fun _ _ _ => trivial
    | split

theorem allAlike_streamMethods : AllAlike E streamMethods := by
  unfold streamMethods
  repeat' refine AllAlike.native (fun c => ?_) ?_
  case' refine_2 => exact .nil
  all_goals
    simp only [close, emptySink, sinkOfCapacity, writeByte, writeBytes, writeRange, sinkBytes, sinkSize,
      readSource, readByte, openArchive, nextEntry, closeEntry, readArchive, entryName, entryExtra]
  all_goals
    repeat' first
      | with_reducible first
        | exact .value _ | exact .fail _ | exact .ofExcept _ | exact .look _ | exact .narrow _ _
        | exact c.alike_narrowThis _ | exact c.alike_bytesArgument _ | exact alike_readInto _ _ _ _
        | exact alike_newBytes _ | exact (Alike.newString _).any
        | exact alike_hostFailure _ _ | refine c.alike_modifyThis ?_ (by decide) ?_
        | refine .modify ?_ (fun h => absurd h (by decide)) _ ?_
        | refine c.alike_constructThis ?_ | refine (Alike.allocate ?_).any
        | refine Alike.next ?_ fun _ => ?_
      | exact View.mutable_sink
      | exact View.mutable_source
      | exact View.mutable_zipStream
      | exact fun _ _ => trivial
      | exact trivial
      | split

/-! ### Patterns, collections and digests -/

theorem alike_availableCharsets (c : Call) : Alike E Any (availableCharsets c) (availableCharsets c) :=
  (Alike.mapM fun _ _ => .newString _).any.next fun vs =>
    (Alike.allocateAs _ (p := .collection vs) trivial).any

theorem allAlike_collectionMethods : AllAlike E collectionMethods := by
  unfold collectionMethods
  repeat' refine AllAlike.native (fun c => ?_) ?_
  case' refine_2 => exact .nil
  all_goals try
    simp only [compile, patternSource, splitByPattern, keySet, iteratorOf, collectionSize, hasNext, nextElement]
  all_goals
    repeat' first
      | with_reducible first
        | exact .value _ | exact .fail _ | exact .ofExcept _
        | exact c.alike_stringArgument _ | exact c.alike_narrowThis _ | exact alike_display _
        | exact alike_compilePattern _ _ | exact alike_newStrings _ | exact alike_availableCharsets c
        | exact (Alike.newString _).any | refine c.alike_modifyThis ?_ (by decide) ?_
        | refine (Alike.allocate ?_).any | refine Alike.next ?_ fun _ => ?_
      | exact View.mutable_iterator
      | exact fun _ _ => trivial
      | exact trivial
      | split

theorem alike_finishWith (c : Call) (last : List UInt8) :
    Alike E Any (finishWith c last) (finishWith c last) :=
  (c.alike_narrowThis _).next fun _ =>
    (c.alike_modifyThis View.mutable_digest (by decide) fun _ _ => trivial).next fun _ => alike_newBytes _

theorem allAlike_digestMethods : AllAlike E digestMethods := by
  unfold digestMethods
  repeat' refine AllAlike.native (fun c => ?_) ?_
  case' refine_2 => exact .nil
  all_goals simp only [digestOf, updateDigest, finishDigest, finishDigestWith]
  all_goals
    repeat' first
      | with_reducible first
        | exact .value _ | exact .fail _ | exact c.alike_stringArgument _ | exact c.alike_bytesArgument _
        | exact alike_finishWith c _ | exact alike_hostFailure _ _ | refine c.alike_modifyThis ?_ (by decide) ?_
        | refine (Alike.allocate ?_).any | refine Alike.next ?_ fun _ => ?_
      | exact View.mutable_digest
      | exact fun _ _ => trivial
      | exact trivial
      | split

/-- Every native method keeps the heap in order and does not look at the meter. -/
theorem alike_library : AllAlike E Catalog.library.methods :=
  ((((((((allAlike_objectMethods.append allAlike_stringMethods).append allAlike_builderMethods).append
    allAlike_throwableMethods).append allAlike_reflectionMethods).append allAlike_handleMethods).append
    allAlike_streamMethods).append allAlike_collectionMethods).append allAlike_digestMethods)

end Library

end Jvm
