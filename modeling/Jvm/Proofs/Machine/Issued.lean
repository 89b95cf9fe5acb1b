import Jvm.Machine.Run
import Jvm.Proofs.Machine.Heap

/-!
# Handles that were issued

A reference is a number, and a heap hands out numbers in order. So it has issued those below its size
(`Value.Issued`), and since no object is ever taken away, a reference that was issued stays one
(`Value.Issued.mono`). `State.Issued` says that of every reference that a state holds: in static fields, in
the contents of objects, and in the table of interned texts.

The size is a number of its own in all these predicates, not that of a heap at hand: what an action has
found is kept while the heap grows under it.
-/

namespace Jvm

/-- A reference is one of the first `n`. -/
def Value.Issued (n : Nat) (v : Value) : Prop := ∀ id, v = .ref id → id < n

namespace Value

variable {n k : Nat} {v : Value}

theorem Issued.mono (h : v.Issued n) (hk : n ≤ k) : v.Issued k := fun id hid => Nat.lt_of_lt_of_le (h id hid) hk

@[simp] theorem issued_ref {id : Nat} : (ref id).Issued n ↔ id < n :=
  ⟨fun h => h id rfl, fun h _ hid => by cases hid; exact h⟩

@[simp] theorem issued_int (x : Int32) : (int x).Issued n := fun _ h => by cases h

@[simp] theorem issued_long (x : Int64) : (long x).Issued n := fun _ h => by cases h

@[simp] theorem issued_float (x : Float32) : (float x).Issued n := fun _ h => by cases h

@[simp] theorem issued_double (x : Float) : (double x).Issued n := fun _ h => by cases h

@[simp] theorem issued_null : null.Issued n := fun _ h => by cases h

@[simp] theorem issued_void : void.Issued n := fun _ h => by cases h

@[simp] theorem issued_top : top.Issued n := fun _ h => by cases h

@[simp] theorem issued_initial (t : FieldType) : (initial t).Issued n := by cases t <;> simp [initial]

theorem issued_of_ref? (h : v.ref? = none) : v.Issued n := by
  rintro id rfl
  cases h

theorem eq_of_asReference {name : String} {u : Value} (h : v.asReference name = .ok u) :
    u = v ∧ v.isReferenceLike = true := by
  rw [asReference] at h
  split at h <;> cases h
  exact ⟨rfl, ‹_›⟩

theorem issued_asType {t : FieldType} {name : String} {u : Value} (hv : v.Issued n)
    (h : v.asType t name = .ok u) : u.Issued n := by
  rw [asType] at h
  split at h <;> cases h
  exact hv

end Value

/-! ### Arrays -/

def ArrayObject.Issued (n : Nat) : ArrayObject → Prop
  | reference _ es => ∀ v ∈ es, v.Issued n
  | _ => True

namespace ArrayObject

variable {n k : Nat} {a : ArrayObject}

theorem Issued.mono (h : a.Issued n) (hk : n ≤ k) : a.Issued k := by
  cases a with
  | reference c es => exact fun v hv => (h v hv).mono hk
  | _ => trivial

theorem issued_zeros (t : ArrayType) (length : Nat) : (zeros t length).Issued n := by
  cases t <;> trivial

theorem issued_ofComponent (t : FieldType) (length : Nat) : (ofComponent t length).Issued n := by
  have hnull : ∀ c, (reference c (Array.replicate length .null)).Issued n := by
    intro c v hv
    rw [(Array.mem_replicate.1 hv).2]
    exact Value.issued_null
  cases t <;> first | trivial | exact hnull _

theorem issued_put (ha : a.Issued n) (i : Nat) {v : Value} (hv : v.Issued n) : (a.put i v).Issued n := by
  cases a with
  | reference c es =>
    intro u hu
    by_cases href : v.isReferenceLike = true
    · simp only [href, if_true] at hu
      rcases Array.mem_or_eq_of_mem_setIfInBounds hu with hu | rfl
      · exact ha u hu
      · exact hv
    · rw [if_neg href] at hu
      exact ha u hu
  | _ => cases v <;> trivial

theorem issued_copyFrom {target source copied : ArrayObject} {offset start length : Int32}
    (ht : target.Issued n) (hs : source.Issued n)
    (h : target.copyFrom offset source start length = .ok copied) : copied.Issued n := by
  cases copied with
  | reference c es =>
    obtain ⟨ts, c', ss, rfl, rfl, hes⟩ := exists_of_copyFrom h
    exact fun v hv => (hes v hv).elim (ht v) (hs v)
  | _ => trivial

theorem issued_get? (ha : a.Issued n) {i : Nat} {v : Value} (h : a.get? i = some v) : v.Issued n := by
  cases a with
  | reference c es => exact ha v (Array.mem_of_getElem? h)
  | _ =>
    obtain ⟨e, -, rfl⟩ := Option.map_eq_some_iff.1 h
    simp

theorem issued_load (ha : a.Issued n) {index : Int32} {v : Value} (h : a.load index = .ok v) : v.Issued n := by
  obtain ⟨i, hi⟩ := a.exists_of_load h
  exact issued_get? ha hi

theorem issued_references (ha : a.Issued n) {vs : List Value} (h : a.references = .ok vs) :
    ∀ v ∈ vs, v.Issued n := by
  cases a with
  | reference c es =>
    cases h
    intro v hv
    exact ha v (Array.mem_toList_iff.1 hv)
  | _ => cases h

end ArrayObject

/-! ### Contents and heaps -/

namespace Payload

/-- The references that contents hold were issued. -/
def Issued (n : Nat) : Payload → Prop
  | array a => a.Issued n
  | collection es => ∀ v ∈ es, v.Issued n
  | iterator i => ∀ v ∈ i.elements, v.Issued n
  | record fs => ∀ f ∈ fs, f.2.Issued n
  | _ => True

theorem Issued.mono {n k : Nat} {p : Payload} (h : p.Issued n) (hk : n ≤ k) : p.Issued k := by
  cases p with
  | array a => exact ArrayObject.Issued.mono h hk
  | collection es => exact fun v hv => (h v hv).mono hk
  | iterator i => exact fun v hv => (h v hv).mono hk
  | record fs => exact fun f hf => (h f hf).mono hk
  | _ => trivial

end Payload

namespace Fields

variable {n : Nat} {fs : Fields}

theorem issued_get? (h : ∀ f ∈ fs, f.2.Issued n) {name : String} {v : Value} (hv : fs.get? name = some v) :
    v.Issued n := by
  obtain ⟨f, hf, rfl⟩ := Option.map_eq_some_iff.1 hv
  exact h f (List.mem_of_find?_eq_some hf)

theorem issued_put (h : ∀ f ∈ fs, f.2.Issued n) (name : String) {v : Value} (hv : v.Issued n) :
    ∀ f ∈ fs.put name v, f.2.Issued n := by
  intro f hf
  rcases List.mem_cons.1 hf with rfl | hf
  · exact hv
  · exact h f (List.mem_filter.1 hf).1

end Fields

namespace Heap

variable {h : Heap} {id : Nat} {p : Payload} {v : Value}

/-- The references in the heap, and the objects of interned texts, were issued by it. -/
structure Issued (h : Heap) : Prop where
  contents : h.Holds (Payload.Issued h.size)
  interned : ∀ e ∈ h.interned, e.2 < h.size

theorem Holds.imp {P Q : Payload → Prop} (hs : h.Holds P) (hPQ : ∀ p, P p → Q p) : h.Holds Q :=
  fun id p hp => hPQ p (hs id p hp)

theorem Issued.push (hs : h.Issued) (className : String) {p : Option Payload}
    (hp : ∀ q, p = some q → q.Issued h.size) : (h.push className p).2.Issued := by
  refine ⟨?_, fun e he => ?_⟩
  · rw [size_push]
    refine Holds.push (hs.contents.imp fun q hq => hq.mono (Nat.le_succ _)) className fun q hq => ?_
    exact (hp q hq).mono (Nat.le_succ _)
  · rw [size_push]
    exact Nat.lt_succ_of_lt (hs.interned e he)

theorem Issued.pushInterned (hs : h.Issued) (text : Units) : (h.pushInterned text).2.Issued := by
  have hpush := hs.push "java/lang/String" (p := some (.string text)) fun q hq => by cases hq; trivial
  refine ⟨hpush.contents, fun e he => ?_⟩
  rw [size_pushInterned]
  rcases List.mem_cons.1 he with rfl | he
  · exact Nat.lt_succ_self _
  · exact Nat.lt_succ_of_lt (hs.interned e he)

theorem Issued.setPayload (hs : h.Issued) (id : Nat) (hp : p.Issued h.size) : (h.setPayload id p).Issued :=
  ⟨by rw [size_setPayload]; exact hs.contents.setPayload id hp, by rw [size_setPayload]; exact hs.interned⟩

theorem Issued.interned? (hs : h.Issued) {text : Units} (hid : h.interned? text = some id) : id < h.size := by
  obtain ⟨e, he, rfl⟩ := Option.map_eq_some_iff.1 hid
  exact hs.interned e (List.mem_of_find?_eq_some he)

theorem issued_empty (limit : Nat) : (empty limit).Issued :=
  ⟨fun id p hp => by simp [contents?, empty] at hp, nofun⟩

/-- A reference that was issued leads to an object. -/
theorem exists_object (hid : id < h.size) : ∃ o, h.object (.ref id) = .ok o :=
  ⟨h.objects[id], by simp [object, idOf, bind, Except.bind, Array.getElem?_eq_getElem hid]⟩

/-- And only such a reference does. -/
theorem issued_of_object {o : HeapObject} (ho : h.object v = .ok o) : v.Issued h.size := by
  rintro id rfl
  refine Nat.lt_of_not_le fun hid => ?_
  simp [object, idOf, bind, Except.bind, Array.getElem?_eq_none hid] at ho

end Heap

/-- Every reference that the state holds was issued by its heap. -/
structure State.Issued (s : State) : Prop where
  statics : ∀ e ∈ s.statics, e.2.Issued s.heap.size
  heap : s.heap.Issued

namespace State

variable {s : State} {owner name : String} {v : Value}

theorem Issued.static? (hs : s.Issued) (hv : s.static? owner name = some v) : v.Issued s.heap.size := by
  obtain ⟨e, he, rfl⟩ := Option.map_eq_some_iff.1 hv
  exact hs.statics e (List.mem_of_find?_eq_some he)

theorem Issued.putStatic (hs : s.Issued) (owner name : String) (hv : v.Issued s.heap.size) :
    (s.putStatic owner name v).Issued := by
  refine ⟨fun e he => ?_, hs.heap⟩
  rcases List.mem_cons.1 he with rfl | he
  · exact hv
  · exact hs.statics e (List.mem_filter.1 he).1

end State

/-! ### Running methods -/

def Locals.Issued (n : Nat) (l : Locals) : Prop := ∀ v ∈ l.slots, v.Issued n

namespace Locals

variable {n k : Nat} {l : Locals} {index : Nat} {v : Value}

theorem Issued.mono (h : l.Issued n) (hk : n ≤ k) : l.Issued k := fun v hv => (h v hv).mono hk

theorem issued_ofCount (count : Nat) : (ofCount count).Issued n := by
  intro v hv
  rw [(Array.mem_replicate.1 hv).2]
  exact Value.issued_top

theorem issued_load (h : l.Issued n) (hv : l.load index = .ok v) : v.Issued n := by
  simp only [load, bind, Except.bind] at hv
  split at hv
  · cases hv
  split at hv <;> cases hv
  cases hslot : l.slots[index]? with
  | none => simp
  | some u => exact h u (Array.mem_of_getElem? hslot)

theorem issued_setIfInBounds {slots : Array Value} (h : ∀ u ∈ slots, u.Issued n) (hv : v.Issued n) :
    ∀ u ∈ slots.setIfInBounds index v, u.Issued n := by
  intro u hu
  rcases Array.mem_or_eq_of_mem_setIfInBounds hu with hu | rfl
  · exact h u hu
  · exact hv

theorem issued_store (h : l.Issued n) (hv : v.Issued n) {l' : Locals} (hstore : l.store index v = .ok l') :
    l'.Issued n := by
  simp only [store, bind, Except.bind] at hstore
  split at hstore <;> cases hstore
  have htop : ∀ {slots : Array Value} (c : Prop) [Decidable c] (i : Nat), (∀ u ∈ slots, u.Issued n) →
      ∀ u ∈ if c then slots.setIfInBounds i .top else slots, u.Issued n := by
    intro slots c _ i hslots
    split
    · exact issued_setIfInBounds hslots Value.issued_top
    · exact hslots
  exact htop _ _ (issued_setIfInBounds (htop _ _ h) hv)

end Locals

namespace OperandStack

def Issued (n : Nat) (s : OperandStack) : Prop := ∀ v ∈ s.values, v.Issued n

theorem Issued.mono {n k : Nat} {s : OperandStack} (h : s.Issued n) (hk : n ≤ k) : s.Issued k :=
  fun v hv => (h v hv).mono hk

end OperandStack

/-- The references that a running method holds were issued. -/
structure Activation.Issued (n : Nat) (a : Activation) : Prop where
  stack : a.stack.Issued n
  locals : a.locals.Issued n

namespace Activation

variable {n k : Nat} {a : Activation}

theorem Issued.mono (h : a.Issued n) (hk : n ≤ k) : a.Issued k := ⟨h.stack.mono hk, h.locals.mono hk⟩

theorem issued_storeArguments {arguments : List (Value × FieldType)} {index : Nat} {l l' : Locals}
    (hl : l.Issued n) (ha : ∀ p ∈ arguments, p.1.Issued n)
    (h : storeArguments arguments index l = .ok l') : l'.Issued n := by
  induction arguments generalizing index l with
  | nil =>
    cases h
    exact hl
  | cons p rest ih =>
    obtain ⟨hp, hrest⟩ := List.forall_mem_cons.1 ha
    simp only [storeArguments, bind, Except.bind] at h
    cases htype : p.1.asType p.2 "argument" with
    | error => simp only [htype] at h; cases h
    | ok v =>
      simp only [htype] at h
      cases hstore : l.store index v with
      | error => simp only [hstore] at h; cases h
      | ok l₁ =>
        simp only [hstore] at h
        exact ih (Locals.issued_store hl (Value.issued_asType hp htype) hstore) hrest h

/-- A method is entered with its arguments and its receiver and nothing else. -/
theorem issued_enter {limit : Nat} {m : Method} {d : MethodDescriptor} {arguments : List Value}
    {receiver : Option Value} (ha : ∀ v ∈ arguments, v.Issued n) (hr : ∀ v ∈ receiver, v.Issued n)
    (h : enter limit m d arguments receiver = .ok a) : a.Issued n := by
  have harguments : ∀ p ∈ arguments.zip d.parameters, p.1.Issued n :=
    fun p hp => ha p.1 (List.of_mem_zip hp).1
  have hstack : (OperandStack.empty limit).Issued n := nofun
  unfold enter at h
  simp only [bind, Except.bind, pure, Except.pure] at h
  by_cases hstatic : m.isStatic = true
  · simp only [hstatic, if_true] at h
    split at h <;> cases h
    exact ⟨hstack, issued_storeArguments (Locals.issued_ofCount _) harguments ‹_›⟩
  simp only [hstatic, Bool.false_eq_true, if_false] at h
  cases receiver with
  | none => cases h
  | some v =>
    dsimp only at h
    cases href : v.asReference "receiver" with
    | error => simp only [href] at h; cases h
    | ok u =>
      simp only [href] at h
      cases hstore : (Locals.ofCount (max ((m.body.map (·.maxLocals.toNat)).getD 0) (d.argumentSlots + 1))).store
          0 u with
      | error => simp only [hstore] at h; cases h
      | ok l =>
        simp only [hstore] at h
        split at h <;> cases h
        obtain ⟨rfl, -⟩ := Value.eq_of_asReference href
        exact ⟨hstack, issued_storeArguments (Locals.issued_store (Locals.issued_ofCount _) (hr _ rfl) hstore)
          harguments ‹_›⟩

end Activation

end Jvm
