import Jvm.Library
import Jvm.Proofs.Machine.Issued

/-!
# Faults of the machine itself

Some faults say that the machine was wrong and not the program: a reference that was never issued, a frame
that is missing, an argument that the caller left out, a check that nothing answers (`Fault.isInternal`).
What only computes with values raises none of them (`Mild`). What looks an object up raises none where the
reference was issued, and the providers of the standard chain answer every comparison and type check of
such references between them (`Chain.mild_compare`, `Chain.mild_instanceOf`).
-/

namespace Jvm

/-- The fault is one of the machine, which no program is to blame for. -/
def Fault.isInternal : Fault → Bool
  | invalidReference _ | callStackUnderflow | argumentIndex .. | argumentCount .. | missingBody ..
  | unresolvedComparison .. | unresolvedInstanceOf .. => true
  | _ => false

/-- The result is no internal fault. -/
def Mild {α : Type} (r : Except Fault α) : Prop := ∀ f, r = .error f → f.isInternal = false

namespace Mild

variable {α β : Type} {r : Except Fault α}

@[simp] theorem ok (a : α) : Mild (.ok a) := fun _ h => by cases h

@[simp] theorem error_iff {f : Fault} : Mild (.error f : Except Fault α) ↔ f.isInternal = false :=
  ⟨fun h => h f rfl, fun h _ hg => by cases hg; exact h⟩

theorem error {f : Fault} (hf : f.isInternal = false) : Mild (.error f : Except Fault α) := error_iff.2 hf

theorem bind {g : α → Except Fault β} (hr : Mild r) (hg : ∀ a, r = .ok a → Mild (g a)) : Mild (r >>= g) := by
  cases r with
  | ok a => exact hg a rfl
  | error f => exact error (hr f rfl)

theorem map (hr : Mild r) (g : α → β) : Mild (r.map g) := by
  cases r with
  | ok a => exact ok _
  | error f => exact error (hr f rfl)

theorem mapError {g : Fault → Fault} (hg : ∀ f, (g f).isInternal = false) : Mild (r.mapError g) := by
  cases r with
  | ok a => exact ok a
  | error f => exact error (hg f)

end Mild

/-! ### Values, variables and arrays -/

namespace Value

variable (name : String) (v : Value)

theorem mild_asInt : Mild (v.asInt name) := by
  cases v <;> simp [asInt, mismatch, Fault.isInternal]

theorem mild_asLong : Mild (v.asLong name) := by
  cases v <;> simp [asLong, mismatch, Fault.isInternal]

theorem mild_asFloat : Mild (v.asFloat name) := by
  cases v <;> simp [asFloat, mismatch, Fault.isInternal]

theorem mild_asDouble : Mild (v.asDouble name) := by
  cases v <;> simp [asDouble, mismatch, Fault.isInternal]

theorem mild_asReference : Mild (v.asReference name) := by
  unfold asReference
  split <;> simp [mismatch, Fault.isInternal]

theorem mild_asType (t : FieldType) : Mild (v.asType t name) := by
  unfold asType
  split <;> simp [mismatch, Fault.isInternal]

end Value

namespace Locals

variable (l : Locals) (n : Nat)

theorem mild_check (words : Nat) : Mild (l.check n words) := by
  unfold check
  split <;> simp [Fault.isInternal]

theorem mild_load : Mild (l.load n) := by
  refine (l.mild_check n 1).bind fun _ _ => ?_
  split <;> simp [Fault.isInternal]

theorem mild_store (v : Value) : Mild (l.store n v) := (l.mild_check n _).bind fun _ _ => .ok _

end Locals

namespace ArrayObject

variable (a : ArrayObject) (n : Int32)

theorem mild_position : Mild (a.position n) := by
  unfold position
  dsimp only
  split <;> simp [Fault.isInternal]

theorem mild_load : Mild (a.load n) := by
  unfold load
  have h := a.mild_position n
  cases hp : a.position n with
  | ok i => exact .ok _
  | error f => exact .error (h f hp)

theorem mild_elementOf (v : Value) : Mild (a.elementOf v) := by
  cases a
  case long => exact (v.mild_asLong _).map _
  case float => exact (v.mild_asFloat _).map _
  case double => exact (v.mild_asDouble _).map _
  case reference => exact v.mild_asReference _
  all_goals exact (v.mild_asInt _).map _

theorem mild_storePosition (v : Value) : Mild (a.storePosition n v) :=
  (a.mild_position n).bind fun _ _ => (a.mild_elementOf v).bind fun _ _ => .ok _

theorem mild_bytes : Mild a.bytes := by
  cases a <;> simp [bytes, Fault.isInternal]

theorem mild_chars : Mild a.chars := by
  cases a <;> simp [chars, Fault.isInternal]

theorem mild_references : Mild a.references := by
  cases a <;> simp [references, Fault.isInternal]

theorem mild_copyFrom (offset : Int32) (source : ArrayObject) (start length : Int32) :
    Mild (a.copyFrom offset source start length) := by
  unfold copyFrom
  dsimp only
  iterate 4
    split
    · exact .error rfl
  split <;> simp [Fault.isInternal]

end ArrayObject

/-! ### Instructions -/

namespace Step

theorem mild_checkSlot (name : String) (t : SlotType) (v : Value) : Mild (checkSlot name t v) := by
  cases t
  case int => exact (v.mild_asInt _).map _
  case long => exact (v.mild_asLong _).map _
  case float => exact (v.mild_asFloat _).map _
  case double => exact (v.mild_asDouble _).map _
  case ref => exact v.mild_asReference _

theorem mild_checkElement (t : ElemType) (a : ArrayObject) : Mild (checkElement t a) := by
  unfold checkElement
  split <;> simp [Fault.isInternal]

theorem mild_fieldType (descriptor : String) : Mild (fieldType descriptor) := by
  unfold fieldType
  split <;> simp [Fault.isInternal]

theorem mild_operandType (name : String) : Mild (operandType name) := by
  unfold operandType
  split <;> simp [Fault.isInternal]

theorem mild_methodType (descriptor : String) : Mild (methodType descriptor) := by
  unfold methodType
  split <;> simp [Fault.isInternal]

theorem mild_arrayLength (n : Int32) : Mild (arrayLength n) := by
  unfold arrayLength
  split <;> simp [Fault.isInternal]

theorem issued_checkSlot {name : String} {t : SlotType} {v u : Value} {n : Nat} (hv : v.Issued n)
    (h : checkSlot name t v = .ok u) : u.Issued n := by
  cases t with
  | ref => exact (Value.eq_of_asReference h).1 ▸ hv
  | _ =>
    simp only [checkSlot, Except.map] at h
    split at h <;> cases h
    simp

end Step

namespace Activation

theorem mild_storeArguments (arguments : List (Value × FieldType)) (index : Nat) (locals : Locals) :
    Mild (storeArguments arguments index locals) := by
  induction arguments generalizing index locals with
  | nil => exact .ok _
  | cons p rest ih =>
    refine (p.1.mild_asType _ p.2).bind fun v _ => ?_
    exact (locals.mild_store index v).bind fun locals _ => ih _ locals

theorem mild_enter (limit : Nat) (m : Method) (d : MethodDescriptor) (arguments : List Value)
    (receiver : Option Value) : Mild (enter limit m d arguments receiver) := by
  have hrest : ∀ p : Locals × Nat, Mild (do
      let locals ← storeArguments (arguments.zip d.parameters) p.2 p.1
      return { stack := OperandStack.empty limit, locals, returns := d.returns } : Except Fault Activation) :=
    fun p => (mild_storeArguments _ _ _).bind fun _ _ => .ok _
  unfold enter
  dsimp only
  split
  · exact hrest _
  split
  · exact .error rfl
  · exact (Value.mild_asReference _ _).bind fun v _ => (Locals.mild_store _ _ v).bind fun _ _ => hrest _

end Activation

/-! ### The heap -/

namespace Heap

variable {h : Heap} {v : Value}

theorem mild_idOf (v : Value) : Mild (idOf v) := by
  cases v <;> simp [idOf, Value.mismatch, Fault.isInternal]

theorem mild_object (hv : v.Issued h.size) : Mild (h.object v) := by
  cases v with
  | ref id =>
    obtain ⟨o, ho⟩ := exists_object (Value.issued_ref.1 hv)
    rw [ho]
    exact .ok o
  | _ => simp [object, idOf, bind, Except.bind, Value.mismatch, Fault.isInternal]

theorem mild_className (hv : v.Issued h.size) : Mild (h.className v) := (mild_object hv).bind fun _ _ => .ok _

theorem mild_isConstructed (hv : v.Issued h.size) : Mild (h.isConstructed v) :=
  (mild_object hv).bind fun _ _ => .ok _

theorem mild_payload (hv : v.Issued h.size) : Mild (h.payload v) := by
  refine (mild_object hv).bind fun o _ => ?_
  split <;> simp [Fault.isInternal]

theorem mild_narrow {α : Type} (view : View α) (hv : v.Issued h.size) : Mild (h.narrow view v) := by
  refine (mild_payload hv).bind fun p _ => ?_
  split <;> simp [Fault.isInternal]

theorem mild_unconstructed (hv : v.Issued h.size) (expected : String) : Mild (h.unconstructed v expected) := by
  refine (mild_object hv).bind fun o _ => ?_
  split
  · exact .error rfl
  split
  · exact .error rfl
  · exact mild_idOf v

theorem mild_checkRoom (h : Heap) : Mild h.checkRoom := by
  unfold checkRoom
  split <;> simp [Fault.isInternal]

theorem mild_classObjectName? (hv : v.Issued h.size) : Mild (h.classObjectName? v) := by
  refine (mild_object hv).bind fun o _ => ?_
  split <;> exact .ok _

theorem mild_sameReference {a b : Value} (ha : a.Issued h.size) (hb : b.Issued h.size) :
    Mild (h.sameReference a b) := by
  unfold sameReference
  split
  · exact .ok _
  split
  · exact .ok _
  refine (mild_classObjectName? ha).bind fun n _ => (mild_classObjectName? hb).bind fun m _ => ?_
  split <;> exact .ok _

end Heap

namespace Chain

variable {h : Heap} {a b v : Value}

/-- References are compared by the one provider that compares. -/
theorem mild_compare (ha : a.Issued h.size) (hb : b.Issued h.size) (ha' : a.isReferenceLike = true)
    (hb' : b.isReferenceLike = true) : Mild (standard.compare h a b) := by
  have hfind : standard.providers.find? (·.canCompare a b) = some .comparison := by
    simp [standard, Provider.canCompare, ha', hb']
  rw [compare, hfind]
  exact Heap.mild_sameReference ha hb

/-- A class is one of the program or one of the library, so one of two providers checks it. -/
theorem mild_instanceOf (d : ClassDictionary) (hv : v.Issued h.size) (hv' : v.isReferenceLike = true)
    (target : String) : Mild (standard.instanceOf d h v target) := by
  have hclass := Heap.mild_className hv
  unfold instanceOf
  split
  · rename_i p hp
    have hmem := List.mem_of_find?_eq_some hp
    simp only [standard, List.mem_cons, List.not_mem_nil, or_false] at hmem
    rcases hmem with rfl | rfl | rfl
    · cases List.find?_some hp
    · unfold Provider.instanceOf
      dsimp only
      split
      · exact .ok _
      · exact hclass.bind fun _ _ => .ok _
    · exact hclass.bind fun _ _ => .ok _
  · rename_i hnone
    simp only [standard, List.find?_cons, List.find?_nil, Provider.canCheckType] at hnone
    cases v with
    | null => simp [Value.isNull] at hnone
    | ref id =>
      obtain ⟨o, ho⟩ := Heap.exists_object (Value.issued_ref.1 hv)
      have hname : h.className (.ref id) = .ok o.className := by rw [Heap.className, ho]; rfl
      rw [hname] at hnone
      cases hd : d.contains o.className <;> simp [hd, Value.ref?, Value.isNull] at hnone
    | _ => cases hv'

end Chain

/-! ### Native methods -/

namespace Call

variable {c : Call} {n : Nat}

theorem mild_this (c : Call) : Mild c.this := by
  unfold this
  split <;> simp [Fault.isInternal]

/-- An argument is there if the call has so many. -/
theorem mild_argument (hn : n < c.arguments.length) : Mild (c.argument n) := by
  rw [argument, List.getElem?_eq_getElem hn]
  exact .ok _

end Call

namespace Library

theorem mild_placeWithin (index : Int32) (length : Nat) : Mild (placeWithin index length) := by
  unfold placeWithin
  split <;> simp [Fault.isInternal]

theorem mild_rangeWithin (offset length : Int32) (size : Nat) : Mild (rangeWithin offset length size) := by
  unfold rangeWithin
  dsimp only
  split <;> simp [Fault.isInternal]

theorem mild_unitRange (units : Units) (offset count : Int32) : Mild (unitRange units offset count) := by
  unfold unitRange
  dsimp only
  iterate 3
    split
    · exact .error rfl
  exact .ok _

theorem mild_unitsBetween (units : Units) (first last : Int) : Mild (unitsBetween units first last) := by
  unfold unitsBetween
  split
  · exact .error rfl
  split <;> simp [Fault.isInternal]

theorem mild_unitAt (units : Units) (index : Int32) : Mild (unitAt units index) := by
  unfold unitAt
  split <;> simp [Fault.isInternal]

theorem mild_parseInteger (text : Units) (radix : Int32) (least bound : Int) :
    Mild (parseInteger text radix least bound) := by
  unfold parseInteger
  dsimp only
  split
  · split <;> simp [Fault.isInternal]
  · exact .error rfl

end Library

end Jvm
