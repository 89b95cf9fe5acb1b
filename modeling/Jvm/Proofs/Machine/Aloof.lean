import Jvm.Machine.Step
import Jvm.Proofs.Machine.Actions

/-!
# Faults that only a frame raises

Five faults say that the frame of a running method and its code do not go together: the stack is too short, an
entry would be split, control leaves the code, or there is no such local variable. Whatever reads values, arrays,
types, objects and static fields raises none of them (`Aloof`, `Exec.Aloof`).
-/

namespace Jvm

/-- The frame of a method and its code do not go together. -/
def Fault.isFrame : Fault → Bool
  | stackUnderflow | stackShape _ | fellOffEnd .. | invalidBranchTarget _ | localIndex .. => true
  | _ => false

def Stop.isFrame : Stop → Bool
  | error (.emulation f) => f.isFrame
  | _ => false

/-- The result is no fault of a frame. -/
def Aloof {α : Type} (r : Except Fault α) : Prop := ∀ f, r = .error f → f.isFrame = false

namespace Aloof

variable {α β : Type} {r : Except Fault α}

theorem ok (a : α) : Aloof (.ok a) := nofun

theorem error {f : Fault} (hf : f.isFrame = false) : Aloof (.error f : Except Fault α) := by
  intro g hg
  cases hg
  exact hf

theorem bind {g : α → Except Fault β} (hr : Aloof r) (hg : ∀ a, Aloof (g a)) :
    Aloof (r >>= g) := by
  cases r with
  | ok a => exact hg a
  | error f => exact error (hr f rfl)

theorem map (hr : Aloof r) (g : α → β) : Aloof (r.map g) := by
  cases r with
  | ok a => exact ok _
  | error f => exact error (hr f rfl)

end Aloof

/-! ### Values, fields and arrays -/

namespace Value

variable (name : String) (v : Value)

theorem aloof_asInt : Aloof (v.asInt name) := by
  cases v <;> first | exact .ok _ | exact .error rfl

theorem aloof_asLong : Aloof (v.asLong name) := by
  cases v <;> first | exact .ok _ | exact .error rfl

theorem aloof_asFloat : Aloof (v.asFloat name) := by
  cases v <;> first | exact .ok _ | exact .error rfl

theorem aloof_asDouble : Aloof (v.asDouble name) := by
  cases v <;> first | exact .ok _ | exact .error rfl

theorem aloof_asReference : Aloof (v.asReference name) := by
  unfold asReference
  split
  · exact .ok _
  · exact .error rfl

theorem aloof_asType (t : FieldType) : Aloof (v.asType t name) := by
  unfold asType
  split
  · exact .ok _
  · exact .error rfl

end Value

namespace ArrayObject

variable (a : ArrayObject) (n : Int32)

theorem aloof_position : Aloof (a.position n) := by
  unfold position
  dsimp only
  split
  · exact .ok _
  · exact .error rfl

theorem aloof_load : Aloof (a.load n) := by
  unfold load
  have h := a.aloof_position n
  cases hp : a.position n with
  | ok i => exact .ok _
  | error f => exact .error (h f hp)

theorem aloof_elementOf (v : Value) : Aloof (a.elementOf v) := by
  cases a
  case long => exact (v.aloof_asLong _).map _
  case float => exact (v.aloof_asFloat _).map _
  case double => exact (v.aloof_asDouble _).map _
  case reference => exact v.aloof_asReference _
  all_goals exact (v.aloof_asInt _).map _

theorem aloof_storePosition (v : Value) : Aloof (a.storePosition n v) :=
  (a.aloof_position n).bind fun _ => (a.aloof_elementOf v).bind fun _ => .ok _

end ArrayObject

namespace Step

theorem aloof_checkSlot (name : String) (t : SlotType) (v : Value) : Aloof (checkSlot name t v) := by
  cases t
  case int => exact (v.aloof_asInt _).map _
  case long => exact (v.aloof_asLong _).map _
  case float => exact (v.aloof_asFloat _).map _
  case double => exact (v.aloof_asDouble _).map _
  case ref => exact v.aloof_asReference _

theorem aloof_checkElement (t : ElemType) (a : ArrayObject) : Aloof (checkElement t a) := by
  unfold checkElement
  split
  · exact .ok _
  · exact .error rfl

theorem aloof_fieldType (descriptor : String) : Aloof (fieldType descriptor) := by
  unfold fieldType
  split
  · exact .ok _
  · exact .error rfl

theorem aloof_operandType (name : String) : Aloof (operandType name) := by
  unfold operandType
  split
  · exact .ok _
  · exact .error rfl

theorem aloof_methodType (descriptor : String) : Aloof (methodType descriptor) := by
  unfold methodType
  split
  · exact .ok _
  · exact .error rfl

theorem parse_of_methodType {descriptor : String} {d : MethodDescriptor} (h : methodType descriptor = .ok d) :
    MethodDescriptor.parse descriptor = .ok d := by
  unfold methodType at h
  split at h <;> cases h
  assumption

theorem aloof_arrayLength (n : Int32) : Aloof (arrayLength n) := by
  unfold arrayLength
  split
  · exact .error rfl
  · exact .ok _

end Step

/-! ### The heap -/

namespace Heap

variable (h : Heap) (v : Value)

theorem aloof_idOf : Aloof (idOf v) := by
  cases v <;> first | exact .ok _ | exact .error rfl

theorem aloof_object : Aloof (h.object v) := by
  refine (aloof_idOf v).bind fun id => ?_
  split
  · exact .ok _
  · exact .error rfl

theorem aloof_className : Aloof (h.className v) := (h.aloof_object v).bind fun _ => .ok _

theorem aloof_payload : Aloof (h.payload v) := by
  refine (h.aloof_object v).bind fun o => ?_
  split
  · exact .ok _
  · exact .error rfl

theorem aloof_narrow {α : Type} (view : View α) : Aloof (h.narrow view v) := by
  refine (h.aloof_payload v).bind fun p => ?_
  split
  · exact .ok _
  · exact .error rfl

theorem aloof_checkRoom : Aloof h.checkRoom := by
  unfold checkRoom
  split
  · exact .error rfl
  · exact .ok _

theorem aloof_classObjectName? : Aloof (h.classObjectName? v) := by
  refine (h.aloof_object v).bind fun o => ?_
  split <;> exact .ok _

theorem aloof_sameReference (a b : Value) : Aloof (h.sameReference a b) := by
  unfold sameReference
  split
  · exact .ok _
  split
  · exact .ok _
  refine (h.aloof_classObjectName? a).bind fun n => ?_
  refine (h.aloof_classObjectName? b).bind fun m => ?_
  split <;> exact .ok _

end Heap

namespace Chain

variable (chain : Chain) (h : Heap)

theorem aloof_compare (a b : Value) : Aloof (chain.compare h a b) := by
  unfold compare
  split
  · rename_i p _
    cases p with
    | comparison => exact h.aloof_sameReference a b
    | _ => exact .error rfl
  · exact .error rfl

theorem aloof_instanceOf (d : ClassDictionary) (v : Value) (target : String) :
    Aloof (chain.instanceOf d h v target) := by
  unfold instanceOf
  split
  · rename_i p _
    cases p with
    | native => exact .error rfl
    | comparison =>
      unfold Provider.instanceOf
      dsimp only
      split
      · exact .ok _
      · exact (h.aloof_className v).bind fun _ => .ok _
    | mapped => exact (h.aloof_className v).bind fun _ => .ok _
  · exact .error rfl

end Chain

/-! ### Actions -/

namespace ArithOp

theorem aloof_divided {α : Type} {zero : Prop} [Decidable zero] (x : α) :
    Aloof (if zero then .error .divisionByZero else .ok x) := by
  split
  · exact .error rfl
  · exact .ok _

/-- Only a division fails. -/
theorem aloof_onInt (op : ArithOp) (a b : Int32) : Aloof (op.onInt a b) := by
  cases op
  case div | rem => exact aloof_divided _
  all_goals exact .ok _

theorem aloof_onLong (op : ArithOp) (a b : Int64) : Aloof (op.onLong a b) := by
  cases op
  case div | rem => exact aloof_divided _
  all_goals exact .ok _

end ArithOp

namespace Exec

/-- The action raises no fault of a frame. -/
def Aloof {α : Type} (x : Exec α) : Prop := ∀ w s e s', x w s = .error e s' → e.isFrame = false

namespace Aloof

variable {α β : Type}

theorem never {x : Exec α} (hx : ∀ w s, ∃ a s', x w s = .ok a s') : x.Aloof := by
  intro w s e s' h
  obtain ⟨a, t, hok⟩ := hx w s
  rw [hok] at h
  cases h

theorem pure (a : α) : Aloof (Pure.pure a) := never fun _ s => ⟨a, s, rfl⟩

theorem throw {e : Stop} (he : e.isFrame = false) : Aloof (MonadExcept.throw e : Exec α) := by
  intro w s e' s' h
  cases h
  exact he

theorem fail {f : Fault} (hf : f.isFrame = false) : Aloof (Exec.fail f : Exec α) := throw hf

theorem bind {x : Exec α} {f : α → Exec β} (hx : x.Aloof) (hf : ∀ a, (f a).Aloof) : Aloof (x >>= f) := by
  intro w s e s' h
  obtain hx' | ⟨a, t, -, h⟩ := bind_error h
  · exact hx w s e s' hx'
  · exact hf a w t e s' h

theorem ofExcept {r : Except Fault α} (hr : Jvm.Aloof r) : Aloof (liftM r : Exec α) := by
  cases r with
  | ok a => exact pure a
  | error f => exact fail (hr f rfl)

theorem read : Aloof (MonadReader.read : Exec World) := never fun w s => ⟨w, s, rfl⟩

theorem get : Aloof (MonadState.get : Exec State) := never fun _ s => ⟨s, s, rfl⟩

theorem editHeap (f : Heap → α × Heap) : Aloof (Exec.editHeap f) := never fun _ _ => ⟨_, _, rfl⟩

theorem readHeap {f : Heap → Except Fault α} (hf : ∀ h, Jvm.Aloof (f h)) : Aloof (Exec.readHeap f) :=
  get.bind fun s => ofExcept (hf s.heap)

theorem narrow (view : View α) (v : Value) : Aloof (Exec.narrow view v) := readHeap fun h => h.aloof_narrow v view

theorem className (v : Value) : Aloof (Exec.className v) := readHeap fun h => h.aloof_className v

theorem modify (view : View α) (v : Value) (f : α → α) : Aloof (Exec.modify view v f) :=
  (narrow view v).bind fun _ => (ofExcept (Heap.aloof_idOf v)).bind fun _ => editHeap _

theorem make (className : String) (p : Option Payload) : Aloof (Exec.make className p) :=
  (readHeap Heap.aloof_checkRoom).bind fun _ => editHeap _

theorem allocate (p : Payload) : Aloof (Exec.allocate p) := make _ _

theorem placeholder (className : String) : Aloof (Exec.placeholder className) := make _ _

theorem intern (text : Units) : Aloof (Exec.intern text) := by
  refine get.bind fun s => ?_
  split
  · exact pure _
  · exact (readHeap Heap.aloof_checkRoom).bind fun _ => editHeap _

end Aloof

/-- Entering and leaving a method raises no fault of a frame. -/
theorem withFrame_isFrame {α : Type} {owner name : String} {line : Int32} {act : Exec α} {w : World}
    {s s' : State} {e : Stop} (h : withFrame owner name line act w s = .error e s') (he : e.isFrame = true) :
    ∃ t u, pushFrame owner name line w s = .ok () t ∧ act w t = .error e u := by
  rw [withFrame_apply] at h
  cases hpush : pushFrame owner name line w s with
  | error e' t =>
    simp only [hpush] at h
    cases h
    rw [pushFrame_apply] at hpush
    split at hpush <;> cases hpush
    cases he
  | ok u t =>
    simp only [hpush] at h
    cases hact : act w t with
    | error e' u =>
      simp only [hact] at h
      cases h
      exact ⟨t, u, rfl, hact⟩
    | ok a u =>
      simp only [hact, popFrame_apply] at h
      cases hframes : u.frames with
      | nil =>
        simp only [hframes] at h
        cases h
        cases he
      | cons => simp only [hframes] at h; cases h

end Exec

namespace Step

open Exec (Aloof)

theorem aloof_constantValue (c : Constant) : (constantValue c).Aloof := by
  cases c with
  | string text => exact .intern text
  | classRef name => exact .allocate _
  | _ => exact .pure _

theorem aloof_replicateExec {α : Type} {act : Exec α} (h : act.Aloof) : ∀ n, (replicateExec act n).Aloof
  | 0 => .pure _
  | n + 1 => h.bind fun _ => (aloof_replicateExec h n).bind fun _ => .pure _

theorem aloof_newArrays (t : FieldType) (lengths : List Nat) : (newArrays t lengths).Aloof := by
  fun_induction newArrays t lengths with
  | case1 component length => exact .allocate _
  | case2 component length rest n ih => exact (aloof_replicateExec ih length).bind fun _ => .allocate _
  | case3 => exact .fail rfl

theorem aloof_findStatic (d : ClassDictionary) (m : MemberRef) : ∀ fuel owner, (findStatic d m fuel owner).Aloof := by
  intro fuel
  induction fuel with
  | zero => exact fun _ => .throw rfl
  | succ fuel ih =>
    intro owner
    unfold findStatic
    split
    · exact .fail rfl
    · split
      · exact .pure _
      · exact ih _
      · exact .fail rfl

theorem aloof_resolveStatic (m : MemberRef) : (resolveStatic m).Aloof :=
  Aloof.read.bind fun _ => aloof_findStatic _ _ _ _

end Step

end Jvm
