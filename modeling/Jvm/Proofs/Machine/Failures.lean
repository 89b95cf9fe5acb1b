import Jvm.Proofs.Machine.Fuel
import Jvm.Proofs.Machine.Secure

/-!
# How executions fail

An execution that fails ends in a fault, with one exception (`execute_fails`): reflection reads the descriptors
of methods and fields that it was asked about, and if one of them is refused, the refusal itself ends the
execution and has no kind (`execute_odd`). An instruction that reads a descriptor which is refused ends in a
fault instead, and so does every call.

The descriptor that was refused is one of the program or of an object that was there before, since reflection
makes objects of members of the program only.
-/

namespace Jvm

/-- The error is the refusal of a descriptor of a method or field that reflection can be asked about: one of the
program, or one that an object stands for. -/
inductive Refused (w : World) (s : State) (e : DescriptorError) : Prop where
  | method {name : String} {c : ClassFile} {m : Method} : w.program.get? name = some c → m ∈ c.methods →
      MethodDescriptor.parse m.descriptor = .error e → Refused w s e
  | field {name : String} {c : ClassFile} {f : Field} : w.program.get? name = some c → f ∈ c.fields →
      FieldType.parse f.descriptor = .error e → Refused w s e
  | methodObject {id : Nat} {o : MethodObject} : s.heap.contents? id = some (.method o) →
      MethodDescriptor.parse o.member.descriptor = .error e → Refused w s e
  | fieldObject {id : Nat} {f : MemberRef} : s.heap.contents? id = some (.field f) →
      FieldType.parse f.descriptor = .error e → Refused w s e

namespace Demands

/-- Descriptors are refused for the reasons that are known before; references do not matter. -/
def refused (w : World) (s : State) : Demands := ⟨False, Refused w s⟩

theorem knows_refused (w : World) (s : State) : (refused w s).Knows w where
  methods _ _ hc _ hm _ he := .method hc hm he
  fields _ _ hc _ hf _ he := .field hc hf he

theorem meets_refused (w : World) (s : State) : s.Meets (refused w s) := by
  refine ⟨False.elim, fun id p hp => ?_⟩
  cases p with
  | method o => exact fun e he => .methodObject hp he
  | field f => exact fun e he => .fieldObject hp he
  | _ => trivial

theorem entered_refused (w : World) (s : State) (m : Method) (arguments : List Value) (receiver : Option Value) :
    m.Entered (refused w s) 0 arguments receiver :=
  ⟨False.elim, False.elim, fun _ _ => False.elim, fun _ _ => False.elim⟩

theorem admits_cases {E : Demands} {e : Stop} (h : E.Admits e) :
    e = .outOfFuel ∨ e.faultKind.isSome = true ∨ ∃ cause, e = .error (.malformed (.descriptor cause)) ∧
      E.refusals cause := by
  unfold Admits at h
  split at h
  · exact .inl rfl
  · exact .inr (.inl rfl)
  · exact .inr (.inr ⟨_, rfl, h⟩)
  · exact h.elim

end Demands

namespace Exec

variable {α : Type} {x : Exec α} {w : World} {s : State} {e : Stop}

/-- How an action ends early, if it does. -/
def stop? (x : Exec α) (w : World) (s : State) : Option Stop :=
  match x w s with
  | .ok .. => none
  | .error e _ => some e

theorem exists_of_stop? (h : x.stop? w s = some e) : ∃ s', x w s = .error e s' := by
  rw [stop?] at h
  split at h <;> cases h
  exact ⟨_, ‹_›⟩

end Exec

namespace Chain

variable {w : World} {s s' : State} {owner : ClassFile} {m : Method} {arguments : List Value}
  {receiver : Option Value} {fuel : Nat} {e : Stop}

/-- An execution that fails ends in a fault, unless it is cut off or reflection is asked about a method or field
whose descriptor is refused. -/
theorem execute_fails (h : standard.executeWithin fuel owner m arguments receiver w s = .error e s') :
    e = .outOfFuel ∨ e.faultKind.isSome = true ∨
      ∃ cause, e = .error (.malformed (.descriptor cause)) ∧ Refused w s cause := by
  have hends := (Demands.secured_all (.refused w s) fuel).execute 0 owner m arguments receiver
    (Demands.entered_refused _ _ _ _ _) w s (Demands.knows_refused w s) (Demands.meets_refused w s) (Nat.zero_le _)
  rw [h] at hends
  exact Demands.admits_cases hends.1

/-- Asks for the type of the first field of a class. -/
def asking : Method :=
  ⟨"run", "()Ljava/lang/Class;", 8, some
    { instructions :=
        #[⟨.ldc, .const (.classRef "Odd")⟩,
          ⟨.invoke .virtual, .method ⟨"java/lang/Class", "getDeclaredFields", "()[Ljava/lang/reflect/Field;"⟩⟩,
          ⟨.bipush, .int 0⟩,
          ⟨.arrayLoad .ref, .none⟩,
          ⟨.invoke .virtual, .method ⟨"java/lang/reflect/Field", "getType", "()Ljava/lang/Class;"⟩⟩,
          ⟨.valueReturn .ref, .none⟩]
      maxLocals := 0 }⟩

def askingClass : ClassFile := ⟨"Asking", none, [], 0, 0, [], [asking]⟩

/-- A class with a field whose descriptor is refused. -/
def oddWorld : World :=
  ⟨⟨[askingClass, ⟨"Odd", none, [], 0, 0, [⟨"f", "Q", 0, none⟩], []⟩]⟩, .standard, none, [], .still 0⟩

theorem execute_refused : ∃ s', standard.executeWithin 20 askingClass asking [] none oddWorld (.start .standard) =
    .error (.error (.malformed (.descriptor (.unknownLetter 'Q' "Q")))) s' := by
  have hstop : (standard.executeWithin 20 askingClass asking [] none).stop? oddWorld (.start .standard) =
      some (.error (.malformed (.descriptor (.unknownLetter 'Q' "Q")))) := by decide +kernel
  exact Exec.exists_of_stop? hstop

theorem execute_fails_refused : ∃ e s' cause,
    standard.executeWithin 20 askingClass asking [] none oddWorld (.start .standard) = .error e s' ∧
    e = .error (.malformed (.descriptor cause)) ∧ Refused oddWorld (.start .standard) cause := by
  obtain ⟨s', hs'⟩ := execute_refused
  obtain hcut | hkind | ⟨cause, hcause, hrefused⟩ := execute_fails hs'
  · cases hcut
  · cases hkind
  · exact ⟨_, s', cause, hs', hcause, hrefused⟩

/-- Not every failure has a kind: the type of a field is asked for, and its descriptor is refused. -/
theorem execute_odd : ∃ e s', standard.execute askingClass asking [] none oddWorld (.start .standard) = .error e s' ∧
    e.faultKind = none := by
  obtain ⟨s', hs'⟩ := execute_refused
  have hfuel : 20 ≤ oddWorld.fuel := by decide
  have hends : ∀ t, standard.executeWithin 20 askingClass asking [] none oddWorld (.start .standard) ≠
      .error .outOfFuel t := by
    intro t ht
    rw [hs'] at ht
    cases ht
  rw [execute, Exec.bind_apply, Exec.read_apply]
  dsimp only
  rw [executeWithin_eq ordinary_standard hfuel hends, hs']
  exact ⟨_, s', rfl, rfl⟩

end Chain

end Jvm
