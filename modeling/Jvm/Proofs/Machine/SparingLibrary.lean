import Jvm.Proofs.Machine.Natives
import Jvm.Proofs.Machine.Sparing

/-!
# What a native method leaves behind when it fails

`spares_or_loses`: a native method that fails leaves all objects as they were, or all but one. The exceptions
are five methods of archives and digests that take something out of an object, or take a step of it, before
the last thing is done that may fail; what each of them loses is told by `Loses`. The call of a method by
reflection is left out, as anything may happen in the call.

The methods follow list by list, like those of `alike_library`. Most only read and make objects, or change one
at their end. Two read bytes into an array and change their receiver behind that. This cannot fail any more,
as the receiver is a source or an archive and no array (`narrow_of_readInto`).
-/

namespace Jvm

open Exec (Spares)

variable {whole : Prop}

/-! ### Reading arguments and making objects -/

namespace Call

variable (c : Call)

theorem spares_stringArgument (n : Nat) : Spares whole (c.stringArgument n) :=
  (Spares.ofExcept _).bind fun _ => .narrow _ _

theorem spares_narrowThis {α : Type} (view : View α) : Spares whole (c.narrowThis view) :=
  (Spares.ofExcept _).bind fun _ => .narrow _ _

theorem spares_modifyThis {α : Type} (view : View α) (f : α → α) : Spares False (c.modifyThis view f) :=
  (Spares.ofExcept _).bind fun _ => .modify _ _ _

theorem spares_bytesArgument (n : Nat) : Spares whole (c.bytesArgument n) :=
  (Spares.ofExcept _).bind fun _ => (Spares.narrow _ _).bind fun _ => .ofExcept _

theorem spares_referencesArgument (n : Nat) : Spares whole (c.referencesArgument n) := by
  refine (Spares.ofExcept _).bind fun v => ?_
  split
  · exact .pure _
  · exact (Spares.narrow _ _).bind fun _ => .ofExcept _

theorem spares_constructThis (p : Payload) : Spares False (c.constructThis p) := by
  refine (Spares.ofExcept _).bind fun this => (Spares.look _).bind fun o => ?_
  split
  · exact .pure _
  · exact (Spares.construct this _ p).then_pure fun _ => Value.void

end Call

namespace Exec

theorem spares_hostFailure {α : Type} (operation message : String) :
    Spares whole (hostFailure operation message : Exec α) := .fail _

theorem spares_newBytes (bs : List UInt8) : Spares whole (newBytes bs) := .allocate _

theorem spares_newClass (name : String) : Spares whole (newClass name) := .allocate _

theorem spares_newReferences (component : String) (elements : List Value) :
    Spares whole (newReferences component elements) := .allocate _

theorem spares_newStrings (texts : List String) : Spares whole (newStrings texts) :=
  (Spares.mapM (fun _ => .newString _) texts).bind fun _ => spares_newReferences _ _

theorem spares_newTrace (frames : List CallFrame) : Spares whole (newTrace frames) :=
  (Spares.mapM (fun _ => .allocate _) frames).bind fun _ => spares_newReferences _ _

theorem spares_ofDescriptor {α : Type} (r : Except DescriptorError α) : Spares whole (ofDescriptor r) := by
  cases r with
  | ok a => exact .pure a
  | error e => exact .failWith _

theorem spares_display (v : Value) : Spares whole (display v) := by
  unfold display
  split
  · exact .pure _
  · refine (Spares.look _).bind fun o => ?_
    split
    · exact .pure _
    · exact .fail _

end Exec

namespace Library

/-- What a native method that fails loses of one object: contents `p` of the object have become `q`. Some
bytes are taken from the object, or a step of it is made, before the last thing is done that may fail. -/
inductive Loses (c : Call) : (owner signature : String) → Stop → (id : Nat) → (p q : Payload) → Prop
  /-- The source of an archive has been read to its end, but there is no archive. -/
  | source {e : Stop} {id : Nat} {source : ByteSource} (h : c.argument 0 = .ok (.ref id)) :
      Loses c "java/util/zip/ZipInputStream" "<init>(Ljava/io/InputStream;)V" e id (.source source)
        (.source { source with position := source.bytes.length })
  /-- The next entry is open and the stream behind it, but there is no room for the object that tells of it. -/
  | step {limit id : Nat} {stream : ZipStream} {entry : ZipEntry} {reader : ZipReader}
      (h : c.this = .ok (.ref id)) (hnext : stream.reader.next = .ok (some entry, reader)) :
      Loses c "java/util/zip/ZipInputStream" "getNextEntry()Ljava/util/zip/ZipEntry;"
        (.error (.emulation (.heapLimit limit))) id (.zipStream stream)
        (.zipStream { reader, entry := some { bytes := entry.bytes } })
  /-- The open entry is gone. -/
  | entry {e : Stop} {id : Nat} {stream : ZipStream} (h : c.this = .ok (.ref id)) :
      Loses c "java/util/zip/ZipInputStream" "read([BII)I" e id (.zipStream stream)
        (.zipStream { stream with entry := none })
  /-- What a digest has collected is gone, as there is no room for the hash. -/
  | pending {limit id : Nat} {d : DigestState} {signature : String} (h : c.this = .ok (.ref id))
      (hsignature : signature = "digest()[B" ∨ signature = "digest([B)[B") :
      Loses c "java/security/MessageDigest" signature (.error (.emulation (.heapLimit limit))) id (.digest d)
        (.digest { d with pending := #[] })

/-- What is left of `s` when a method fails in `t`: all objects, or all but one of which something is lost. -/
def Leaves (c : Call) (owner signature : String) (e : Stop) (s t : State) : Prop :=
  s.Spares t ∨ ∃ id p q, Loses c owner signature e id p q ∧ s.heap.contents? id = some p ∧
    State.Spares { s with heap := s.heap.setPayload id q } t

def Sparing (m : NativeMethod) : Prop :=
  ¬ IsInvoker m.owner m.signature → ∀ c w s e t, m.run c w s = .error e t → Leaves c m.owner m.signature e s t

theorem sparing_of_spares {owner signature : String} {f : Call → Exec Value} (hf : ∀ c, Spares False (f c)) :
    Sparing (native owner signature f) :=
  fun _ c _ _ _ _ h => .inl (((hf c).map Reply.value).of_error h)

theorem sparing_of_loss {owner signature : String} {f : Call → Exec Value}
    (hf : ∀ c w s e t, f c w s = .error e t → Leaves c owner signature e s t) : Sparing (native owner signature f) := by
  intro _ c w s e t h
  change (Reply.value <$> f c) w s = _ at h
  rw [map_eq_pure_bind] at h
  obtain h | ⟨_, _, _, h⟩ := Exec.bind_error h
  · exact hf c w s e t h
  · cases h

def AllSparing (ms : List NativeMethod) : Prop := ∀ m ∈ ms, Sparing m

theorem AllSparing.nil : AllSparing [] := nofun

theorem AllSparing.cons {m : NativeMethod} {ms : List NativeMethod} (hm : Sparing m) (hms : AllSparing ms) :
    AllSparing (m :: ms) := List.forall_mem_cons.2 ⟨hm, hms⟩

theorem AllSparing.append {ms ns : List NativeMethod} (hms : AllSparing ms) (hns : AllSparing ns) :
    AllSparing (ms ++ ns) := List.forall_mem_append.2 ⟨hms, hns⟩

theorem AllSparing.native {owner signature : String} {f : Call → Exec Value} {ms : List NativeMethod}
    (hf : ∀ c, Spares False (f c)) (hms : AllSparing ms) : AllSparing (native owner signature f :: ms) :=
  .cons (sparing_of_spares hf) hms

/-! ### Strings -/

theorem spares_charsArgument (c : Call) (n : Nat) : Spares whole (charsArgument c n) :=
  (Spares.ofExcept _).bind fun _ => (Spares.narrow _ _).bind fun _ => .ofExcept _

theorem spares_charRange (c : Call) : Spares whole (charRange c) :=
  (spares_charsArgument c 0).bind fun _ => (Spares.ofExcept _).bind fun _ =>
    (Spares.ofExcept _).bind fun _ => .ofExcept _

theorem spares_charsetArgument (c : Call) (n : Nat) : Spares whole (charsetArgument c n) := by
  refine (c.spares_stringArgument n).bind fun name => ?_
  dsimp only
  split
  · exact .pure _
  · exact .fail _

theorem spares_compilePattern (operation source : String) : Spares whole (compilePattern operation source) := by
  unfold compilePattern
  split
  · exact .pure _
  · exact .fail _

theorem spares_substringOf (c : Call) (units : Units) (first last : Int) :
    Spares whole (substringOf c units first last) := by
  refine (Spares.ofExcept _).bind fun part => ?_
  split
  · exact .ofExcept _
  · exact .newString _

open Exec Call in
theorem allSparing_stringMethods : AllSparing stringMethods := by
  unfold stringMethods
  repeat' refine AllSparing.native (fun c => ?_) ?_
  case' refine_2 => exact .nil
  all_goals
    simp only [stringOfRange, stringOfChars, stringOfBytes, stringOfEncoded, internString, stringEquals,
      trim, toCharArray, stringLength, stringHash, stringCharAt, indexOf, indexOfFrom, lastIndexOf,
      substring, substringBetween, splitString, valueOf, valueOfRange, encodeString, stringBytes]
  all_goals
    repeat' first
      | with_reducible first
        | exact .pure _ | exact .look _ | exact .ofExcept _ | exact .newString _ | exact .intern _
        | exact .allocate _
        | exact spares_stringArgument _ _ | exact spares_narrowThis _ _ | exact spares_bytesArgument _ _
        | exact spares_charsArgument _ _ | exact spares_charRange _ | exact spares_charsetArgument _ _
        | exact spares_compilePattern _ _ | exact spares_substringOf _ _ _ _ | exact spares_newStrings _
        | exact spares_newBytes _ | exact spares_display _ | exact spares_constructThis _ _
        | refine Spares.bind ?_ fun _ => ?_
      | split

/-! ### Builders -/

theorem spares_editBuilder (c : Call) (f : Array UInt16 → Array UInt16) : Spares False (editBuilder c f) :=
  (Spares.ofExcept _).bind fun this => (Spares.modify _ this f).then_pure fun _ => this

theorem spares_textArgument (c : Call) (n : Nat) : Spares whole (textArgument c n) := by
  refine (Spares.ofExcept _).bind fun v => ?_
  split
  · exact .pure _
  · exact c.spares_stringArgument n

open Exec Call in
theorem allSparing_builderMethods : AllSparing builderMethods := by
  unfold builderMethods
  repeat' refine AllSparing.native (fun c => ?_) ?_
  case' refine_2 => exact .nil
  all_goals
    simp only [emptyBuilder, builderOf, builderOfCapacity, appendInt, appendChar, appendString, appendObject,
      appendUnits, builderText, builderLength, builderCharAt, setCharAt, reverse, insertString]
  all_goals
    repeat' first
      | with_reducible first
        | exact .pure _ | exact .fail _ | exact .ofExcept _ | exact .newString _ | exact spares_stringArgument _ _
        | exact spares_narrowThis _ _ | exact spares_textArgument _ _ | exact spares_display _
        | exact spares_editBuilder _ _ | exact (spares_editBuilder _ _).then_pure _
        | exact spares_constructThis _ _ | refine Spares.bind ?_ fun _ => ?_
      | exact .ofExcept _
      | split

/-! ### Exceptions -/

theorem spares_constructThrowable (c : Call) (message : Option Units) :
    Spares False (constructThrowable c message) := Spares.get.bind fun _ => c.spares_constructThis _

open Exec Call in
theorem allSparing_throwableMethods : AllSparing throwableMethods := by
  simp only [throwableMethods, List.flatMap_cons, List.flatMap_nil, List.append_nil, List.cons_append,
    List.nil_append]
  repeat' refine AllSparing.native (fun c => ?_) ?_
  case' refine_2 => exact .nil
  all_goals simp only [plainThrowable, throwableOfMessage, throwableTrace, throwableText]
  all_goals
    repeat' first
      | with_reducible first
        | exact .ofExcept _ | exact .newString _ | exact spares_stringArgument _ _ | exact spares_narrowThis _ _
        | exact spares_newTrace _ | exact spares_display _ | exact spares_constructThrowable _ _
        | refine Spares.bind ?_ fun _ => ?_
      | split

/-! ### Objects -/

theorem spares_arraycopy (c : Call) : Spares False (arraycopy c) := by
  refine (Spares.ofExcept _).bind fun _ => (Spares.narrow _ _).bind fun source => ?_
  refine (Spares.ofExcept _).bind fun start => (Spares.ofExcept _).bind fun destination => ?_
  refine (Spares.ofExcept _).bind fun offset => (Spares.ofExcept _).bind fun length => ?_
  refine (Spares.narrow _ _).bind fun target => (Spares.ofExcept _).bind fun copied => ?_
  exact (Spares.modify _ _ _).then_pure fun _ => Value.void

theorem spares_currentTimeMillis (c : Call) : Spares whole (currentTimeMillis c) := by
  refine Spares.readClock.bind fun time => ?_
  split
  · exact Exec.spares_hostFailure _ _
  · exact .pure _

theorem spares_threadStackTrace (c : Call) : Spares whole (threadStackTrace c) := by
  rw [threadStackTrace_eq]
  refine Spares.read.bind fun w => Spares.get.bind fun s => ?_
  split
  · exact .fail _
  · exact Exec.spares_newTrace _

open Exec Call in
theorem allSparing_objectMethods : AllSparing objectMethods := by
  unfold objectMethods
  repeat' refine AllSparing.native (fun c => ?_) ?_
  case' refine_2 => exact .nil
  all_goals try
    simp only [getClass, currentThread, frameClassName, frameMethodName,
      frameLineNumber, parseLong, parseLongRadix, parseInt, languageAccess, constantPoolOf,
      constantPoolSize]
  all_goals
    repeat' first
      | with_reducible first
        | exact .pure _ | exact .fail _ | exact .ofExcept _ | exact .read | exact .className _ | exact .narrow _ _
        | exact .allocate _ | exact .allocateAs _ _ | exact .newString _ | exact spares_newClass _
        | exact spares_stringArgument _ _ | exact spares_narrowThis _ _ | exact spares_arraycopy _
        | exact spares_currentTimeMillis _ | exact spares_threadStackTrace _ | exact spares_constructThis _ _
        | refine Spares.bind ?_ fun _ => ?_
      | split

/-! ### Reflection -/

theorem spares_programClass (name : String) : Spares whole (programClass name) := by
  refine Spares.read.bind fun w => ?_
  split
  · exact .pure _
  · exact .fail _

theorem spares_methodTypes (m : MethodObject) : Spares whole (methodTypes m) := Exec.spares_ofDescriptor _

theorem spares_references {γ : Type} (component : String) {f : γ → Exec Value} (hf : ∀ c, Spares True (f c))
    (cs : List γ) : Spares whole (do Exec.newReferences component (← cs.mapM f)) :=
  (Spares.mapM hf cs).bind fun _ => Exec.spares_newReferences _ _

theorem spares_getDeclaredMethod (c : Call) : Spares whole (getDeclaredMethod c) := by
  refine (c.spares_narrowThis _).bind fun owner => (c.spares_stringArgument 0).bind fun name => ?_
  refine (c.spares_referencesArgument 1).bind fun vs => ?_
  refine (Spares.mapM (fun v => .narrow View.classObject v) vs).bind fun types => ?_
  refine (spares_programClass owner).bind fun cls => ?_
  split
  · exact .allocate _
  · exact .fail _

theorem spares_getDeclaredMethods (c : Call) : Spares whole (getDeclaredMethods c) :=
  (c.spares_narrowThis _).bind fun owner => (spares_programClass owner).bind fun _ =>
    spares_references _ (fun _ => .allocate _) _

theorem spares_getDeclaredFields (c : Call) : Spares whole (getDeclaredFields c) :=
  (c.spares_narrowThis _).bind fun owner => (spares_programClass owner).bind fun _ =>
    spares_references _ (fun _ => .allocate _) _

theorem spares_getInterfaces (c : Call) : Spares whole (getInterfaces c) :=
  (c.spares_narrowThis _).bind fun name => (spares_programClass name).bind fun _ =>
    spares_references _ (fun _ => Exec.spares_newClass _) _

theorem spares_getParameterTypes (c : Call) : Spares whole (getParameterTypes c) :=
  (c.spares_narrowThis _).bind fun m => (spares_methodTypes m).bind fun _ =>
    spares_references _ (fun _ => Exec.spares_newClass _) _

open Exec Call in
theorem allSparing_reflectionMethods : AllSparing reflectionMethods := by
  unfold reflectionMethods
  repeat' refine AllSparing.native (fun c => ?_) ?_
  case' refine_2 => refine AllSparing.cons (fun h => absurd ⟨rfl, rfl⟩ h) ?_
  repeat' refine AllSparing.native (fun c => ?_) ?_
  case' refine_2 => exact .nil
  all_goals try
    simp only [forName, getClassName, getClassLoader, getSuperclass, thisClass, getProtectionDomain,
      getCodeSource, getLocation, openStream, methodName, getReturnType, setAccessible, methodHash,
      fieldName, getType]
  all_goals
    repeat' first
      | with_reducible first
        | exact .pure _ | exact .ofExcept _ | exact .read | exact .allocate _ | exact .allocateAs _ _
        | exact .newString _ | exact spares_newClass _ | exact spares_stringArgument _ _
        | exact spares_narrowThis _ _ | exact spares_programClass _ | exact spares_methodTypes _
        | exact spares_ofDescriptor _ | exact spares_getDeclaredMethod _ | exact spares_getDeclaredMethods _
        | exact spares_getDeclaredFields _ | exact spares_getInterfaces _ | exact spares_getParameterTypes _
        | exact spares_hostFailure _ _ | exact (spares_modifyThis _ _ _).then_pure _
        | refine Spares.bind ?_ fun _ => ?_
      | split

/-! ### Method handles -/

open Exec Call in
theorem allSparing_handleMethods : AllSparing handleMethods := by
  unfold handleMethods
  repeat' refine AllSparing.native (fun c => ?_) ?_
  case' refine_2 => exact .nil
  all_goals simp only [methodTypeOf, findHandle, handleAsType, callSiteOf]
  all_goals
    repeat' first
      | with_reducible first
        | exact .ofExcept _ | exact .fail _ | exact .narrow _ _ | exact .allocate _ | exact spares_stringArgument _ _
        | exact spares_narrowThis _ _ | exact spares_constructThis _ _ | refine Spares.bind ?_ fun _ => ?_
      | split

/-! ### Streams -/

theorem spares_readInto (source : Option ByteSource) (buffer : Value) (offset length : Int32) :
    Spares False (readInto source buffer offset length) := by
  unfold readInto
  repeat' first
    | with_reducible first
      | exact .pure _ | exact .ofExcept _ | exact .narrow _ _ | exact .fail _
      | exact (Spares.modify _ _ _).then_pure _ | refine Spares.bind ?_ fun _ => ?_
    | split

/-- Only an array is written to. -/
theorem readInto_ok {source : Option ByteSource} {buffer : Value} {offset length : Int32} {w : World} {s t : State}
    {r : Option ByteSource × Int32} (h : readInto source buffer offset length w s = .ok r t) :
    t = s ∨ ∃ id f, t = { s with heap := s.heap.edit View.array id f } := by
  obtain ⟨_, u, hu, h₁⟩ := Exec.bind_ok h
  obtain rfl := Exec.state_readHeap hu
  obtain ⟨⟨start, count⟩, v, hv, h₂⟩ := Exec.bind_ok h₁
  obtain ⟨-, rfl⟩ := Exec.ofExcept_ok hv
  dsimp only at h₂
  by_cases hcount : count = 0
  · rw [if_pos hcount] at h₂
    cases h₂
    exact .inl rfl
  rw [if_neg hcount] at h₂
  cases source with
  | none =>
    cases h₂
    exact .inl rfl
  | some source =>
    cases hread : source.read count with
    | none =>
      simp only [hread] at h₂
      cases h₂
      exact .inl rfl
    | some p =>
      simp only [hread] at h₂
      obtain ⟨found, v, hv, h₃⟩ := Exec.bind_ok h₂
      obtain rfl := Exec.state_readHeap hv
      cases found with
      | byte es =>
        obtain ⟨_, _, hmodify, h₄⟩ := Exec.bind_ok h₃
        obtain ⟨id, -, -, -, rfl⟩ := Exec.modify_ok hmodify
        cases h₄
        exact .inr ⟨id, _, rfl⟩
      | _ => cases h₃

/-- Contents that are no array are found again after bytes have been read into an array. -/
theorem narrow_of_readInto {α : Type} {view : View α}
    (hview : ∀ p a, view.read? p = some a → View.array.read? p = none) {v : Value} {a : α}
    {source : Option ByteSource} {buffer : Value} {offset length : Int32} {w : World} {s t : State}
    {r : Option ByteSource × Int32} (h : readInto source buffer offset length w s = .ok r t)
    (ha : s.heap.narrow view v = .ok a) : t.heap.narrow view v = .ok a := by
  obtain rfl | ⟨id, f, rfl⟩ := readInto_ok h
  · exact ha
  · exact Heap.narrow_edit hview ha id f

theorem spares_readSource (c : Call) : Spares False (readSource c) := by
  refine .of_forall_error fun w s e t h => ?_
  obtain rfl | ⟨this, -, h⟩ := Exec.ofExcept_bind_error h
  · exact .refl _
  obtain rfl | ⟨source, hsource, h⟩ := Exec.narrow_bind_error h
  · exact .refl _
  obtain rfl | ⟨buffer, -, h⟩ := Exec.ofExcept_bind_error h
  · exact .refl _
  obtain rfl | ⟨offset, -, h⟩ := Exec.ofExcept_bind_error h
  · exact .refl _
  obtain rfl | ⟨length, -, h⟩ := Exec.ofExcept_bind_error h
  · exact .refl _
  obtain h | ⟨⟨left?, count⟩, u, hread, h⟩ := Exec.bind_error h
  · exact (spares_readInto _ _ _ _).of_error h
  cases left? with
  | none => cases h
  | some left =>
    -- the receiver is still a source, so it can be changed
    have hu := narrow_of_readInto (fun p a hp => by cases p <;> cases hp; rfl) hread hsource
    obtain ⟨v, hv⟩ := Exec.modify_of_narrow hu fun _ => left
    obtain h | ⟨_, _, _, h⟩ := Exec.bind_error h
    · exact absurd (hv.symm.trans h) nofun
    · cases h

theorem sparing_openArchive : Sparing (native "java/util/zip/ZipInputStream" "<init>(Ljava/io/InputStream;)V"
    openArchive) := by
  refine sparing_of_loss fun c w s e t h => ?_
  obtain rfl | ⟨origin, horigin, h⟩ := Exec.ofExcept_bind_error h
  · exact .inl (.refl _)
  obtain rfl | ⟨source, hsource, h⟩ := Exec.narrow_bind_error h
  · exact .inl (.refl _)
  obtain rfl | ⟨id, found, rfl, hid, hfound, h⟩ := Exec.modify_bind_error View.mutable_source h
  · exact .inl (.refl _)
  cases hsource.symm.trans hfound
  exact .inr ⟨id, _, _, .source horigin, hid, (c.spares_constructThis _).of_error h⟩

theorem sparing_nextEntry : Sparing (native "java/util/zip/ZipInputStream"
    "getNextEntry()Ljava/util/zip/ZipEntry;" nextEntry) := by
  refine sparing_of_loss fun c w s e t h => ?_
  rw [nextEntry, Call.narrowThis, bind_assoc] at h
  obtain rfl | ⟨this, hthis, h⟩ := Exec.ofExcept_bind_error h
  · exact .inl (.refl _)
  obtain rfl | ⟨stream, hstream, h⟩ := Exec.narrow_bind_error h
  · exact .inl (.refl _)
  cases hnext : stream.reader.next with
  | error e =>
    simp only [hnext] at h
    cases h
    exact .inl (.refl _)
  | ok p =>
    obtain ⟨found?, reader⟩ := p
    cases found? with
    | none =>
      simp only [hnext] at h
      exact .inl (((c.spares_modifyThis _ _).then_pure fun _ => Value.null).of_error h)
    | some entry =>
      simp only [hnext, Call.modifyThis, bind_assoc] at h
      obtain rfl | ⟨_, hthis', h⟩ := Exec.ofExcept_bind_error h
      · exact .inl (.refl _)
      cases hthis.symm.trans hthis'
      obtain rfl | ⟨id, found, rfl, hid, hfound, h⟩ := Exec.modify_bind_error View.mutable_zipStream h
      · exact .inl (.refl _)
      cases hstream.symm.trans hfound
      obtain ⟨rfl, rfl⟩ := Exec.allocate_error h
      exact .inr ⟨id, _, _, .step hthis hnext, hid, .refl _⟩

theorem sparing_readArchive : Sparing (native "java/util/zip/ZipInputStream" "read([BII)I" readArchive) := by
  refine sparing_of_loss fun c w s e t h => ?_
  obtain rfl | ⟨this, hthis, h⟩ := Exec.ofExcept_bind_error h
  · exact .inl (.refl _)
  obtain rfl | ⟨stream, hstream, h⟩ := Exec.narrow_bind_error h
  · exact .inl (.refl _)
  obtain rfl | ⟨id, found, rfl, hid, hfound, h⟩ := Exec.modify_bind_error View.mutable_zipStream h
  · exact .inl (.refl _)
  cases hstream.symm.trans hfound
  refine .inr ⟨id, _, _, .entry hthis, hid, ?_⟩
  have hemptied : (s.heap.setPayload id (.zipStream { stream with entry := none })).narrow View.zipStream (.ref id) =
      .ok { stream with entry := none } :=
    Heap.narrow_eq_ok.2 ⟨id, _, rfl, Heap.contents?_setPayload_self hid _, rfl⟩
  obtain rfl | ⟨buffer, -, h⟩ := Exec.ofExcept_bind_error h
  · exact .refl _
  obtain rfl | ⟨offset, -, h⟩ := Exec.ofExcept_bind_error h
  · exact .refl _
  obtain rfl | ⟨length, -, h⟩ := Exec.ofExcept_bind_error h
  · exact .refl _
  obtain h | ⟨⟨entry, count⟩, u, hread, h⟩ := Exec.bind_error h
  · exact (spares_readInto _ _ _ _).of_error h
  -- the receiver is still a stream, so that the entry could be put back
  have hu := narrow_of_readInto (fun p a hp => by cases p <;> cases hp; rfl) hread hemptied
  obtain ⟨v, hv⟩ := Exec.modify_of_narrow hu fun stream => { stream with entry }
  obtain h | ⟨_, _, _, h⟩ := Exec.bind_error h
  · exact absurd (hv.symm.trans h) nofun
  · cases h

open Exec Call in
theorem allSparing_streamMethods : AllSparing streamMethods := by
  unfold streamMethods
  repeat' first
    | refine AllSparing.cons sparing_openArchive ?_
    | refine AllSparing.cons sparing_nextEntry ?_
    | refine AllSparing.cons sparing_readArchive ?_
    | refine AllSparing.native spares_readSource ?_
    | refine AllSparing.native (fun c => ?_) ?_
    | exact AllSparing.nil
  all_goals
    simp only [close, emptySink, sinkOfCapacity, writeByte, writeBytes, writeRange, sinkBytes, sinkSize, readByte,
      closeEntry, entryName, entryExtra]
  all_goals
    repeat' first
      | with_reducible first
        | exact .pure _ | exact .fail _ | exact .ofExcept _ | exact .look _ | exact .newString _
        | exact spares_narrowThis _ _ | exact spares_bytesArgument _ _ | exact spares_newBytes _
        | exact (spares_modifyThis _ _ _).then_pure _ | exact spares_constructThis _ _
        | refine Spares.bind ?_ fun _ => ?_
      | split

/-! ### Patterns, collections and digests -/

theorem leaves_finishWith {c : Call} {signature : String}
    (hsignature : signature = "digest()[B" ∨ signature = "digest([B)[B") {last : List UInt8} {w : World} {s t : State}
    {e : Stop} (h : finishWith c last w s = .error e t) :
    Leaves c "java/security/MessageDigest" signature e s t := by
  rw [finishWith, Call.narrowThis, Call.modifyThis, bind_assoc] at h
  obtain rfl | ⟨this, hthis, h⟩ := Exec.ofExcept_bind_error h
  · exact .inl (.refl _)
  obtain rfl | ⟨d, hd, h⟩ := Exec.narrow_bind_error h
  · exact .inl (.refl _)
  rw [bind_assoc] at h
  obtain rfl | ⟨_, hthis', h⟩ := Exec.ofExcept_bind_error h
  · exact .inl (.refl _)
  cases hthis.symm.trans hthis'
  obtain rfl | ⟨id, found, rfl, hid, hfound, h⟩ := Exec.modify_bind_error View.mutable_digest h
  · exact .inl (.refl _)
  cases hd.symm.trans hfound
  obtain ⟨rfl, rfl⟩ := Exec.allocate_error h
  exact .inr ⟨id, _, _, .pending hthis hsignature, hid, .refl _⟩

theorem sparing_finishDigestWith :
    Sparing (native "java/security/MessageDigest" "digest([B)[B" finishDigestWith) := by
  refine sparing_of_loss fun c w s e t h => ?_
  rw [finishDigestWith, Call.bytesArgument, bind_assoc] at h
  obtain rfl | ⟨array, -, h⟩ := Exec.ofExcept_bind_error h
  · exact .inl (.refl _)
  rw [bind_assoc] at h
  obtain rfl | ⟨a, -, h⟩ := Exec.narrow_bind_error h
  · exact .inl (.refl _)
  obtain rfl | ⟨bytes, -, h⟩ := Exec.ofExcept_bind_error h
  · exact .inl (.refl _)
  exact leaves_finishWith (.inr rfl) h

open Exec Call in
theorem allSparing_digestMethods : AllSparing digestMethods := by
  refine .native (fun c => ?_) (.native (fun c => ?_) (.cons ?_ (.cons sparing_finishDigestWith .nil)))
  · refine (spares_stringArgument _ _).bind fun name => ?_
    dsimp only
    split
    · exact .allocate _
    · exact spares_hostFailure _ _
  · exact (spares_bytesArgument _ _).bind fun bytes => (spares_modifyThis _ _ _).then_pure fun _ => Value.void
  · exact sparing_of_loss fun c w s e t h => leaves_finishWith (.inl rfl) h

theorem spares_availableCharsets (c : Call) : Spares whole (availableCharsets c) :=
  (Spares.mapM (fun _ => .newString _) _).bind fun _ => .allocateAs _ _

open Exec Call in
theorem allSparing_collectionMethods : AllSparing collectionMethods := by
  unfold collectionMethods
  repeat' refine AllSparing.native (fun c => ?_) ?_
  case' refine_2 => exact .nil
  all_goals try
    simp only [compile, patternSource, splitByPattern, keySet, iteratorOf, collectionSize, hasNext, nextElement]
  all_goals
    repeat' first
      | with_reducible first
        | exact .pure _ | exact .fail _ | exact .ofExcept _ | exact .allocate _ | exact .newString _
        | exact spares_stringArgument _ _ | exact spares_narrowThis _ _ | exact spares_display _
        | exact spares_compilePattern _ _ | exact spares_newStrings _ | exact spares_availableCharsets _
        | exact (spares_modifyThis _ _ _).then_pure _ | refine Spares.bind ?_ fun _ => ?_
      | split

theorem allSparing_library : AllSparing Catalog.library.methods :=
  ((((((((allSparing_objectMethods.append allSparing_stringMethods).append allSparing_builderMethods).append
    allSparing_throwableMethods).append allSparing_reflectionMethods).append allSparing_handleMethods).append
    allSparing_streamMethods).append allSparing_collectionMethods).append allSparing_digestMethods)

/-- Where a native method fails, all objects are as they were, or all but one of which something is lost. -/
theorem spares_or_loses {m : NativeMethod} (hm : m ∈ Catalog.library.methods)
    (hinvoker : ¬ IsInvoker m.owner m.signature) {c : Call} {w : World} {s t : State} {e : Stop}
    (h : m.run c w s = .error e t) :
    s.Spares t ∨ ∃ id p q, Loses c m.owner m.signature e id p q ∧ s.heap.contents? id = some p ∧
      State.Spares { s with heap := s.heap.setPayload id q } t :=
  allSparing_library m hm hinvoker c w s e t h

/-- An archive of which an entry is open, and an array of one byte. -/
def openState : State :=
  { State.start .standard with
    heap :=
      ⟨#[⟨"java/util/zip/ZipInputStream",
          some (.zipStream { reader := .ofBytes [], entry := some { bytes := [7] } })⟩,
        ⟨"[B", some (.array (.byte #[0]))⟩], [], 9⟩ }

/-- The state in which the entry is gone. -/
def lostState : State :=
  { openState with heap := openState.heap.setPayload 0 (.zipStream { reader := .ofBytes [], entry := none }) }

def archiveRead : NativeMethod := native "java/util/zip/ZipInputStream" "read([BII)I" readArchive

/-- Reads two bytes into the array of one. -/
def tooLong : Call :=
  .onObject .virtual ⟨"java/util/zip/ZipInputStream", "read", "([BII)I"⟩ (.ref 0) [.ref 1, .int 0, .int 2]

def emptyWorld : World := ⟨⟨[]⟩, .standard, none, [], .still 0⟩

theorem mem_archiveRead : archiveRead ∈ Catalog.library.methods :=
  have hstreams : archiveRead ∈ streamMethods := List.mem_of_getElem? (i := 14) rfl
  List.mem_append_left _ (List.mem_append_left _ (List.mem_append_right _ hstreams))

theorem run_tooLong :
    archiveRead.run tooLong emptyWorld openState = .error (.error (.emulation (.arrayIndex 2 1))) lostState := by
  rfl

theorem spares_or_loses_tooLong :
    archiveRead.run tooLong emptyWorld openState = .error (.error (.emulation (.arrayIndex 2 1))) lostState ∧
    ∃ id p q, Loses tooLong archiveRead.owner archiveRead.signature (.error (.emulation (.arrayIndex 2 1))) id p q ∧
      openState.heap.contents? id = some p ∧
      State.Spares { openState with heap := openState.heap.setPayload id q } lostState := by
  refine ⟨run_tooLong, ?_⟩
  obtain h | h := spares_or_loses mem_archiveRead (fun h => absurd h.1 (by decide)) run_tooLong
  · exact absurd (h.objects 0 _ rfl) (by decide)
  · exact h

/-- Not every method that fails leaves all objects as they were: an entry is lost when its bytes do not fit. -/
theorem entry_lost : ¬ ∀ m ∈ Catalog.library.methods, ¬ IsInvoker m.owner m.signature →
    ∀ c w s e t, m.run c w s = .error e t → s.Spares t := by
  intro h
  have hspares := h archiveRead mem_archiveRead (fun h => absurd h.1 (by decide)) _ _ _ _ _ run_tooLong
  exact absurd (hspares.objects 0 _ rfl) (by decide)

end Library

end Jvm
