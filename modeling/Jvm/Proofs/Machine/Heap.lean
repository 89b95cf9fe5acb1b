import Jvm.Machine.Heap

/-!
# Heaps in order

A heap is in order (`Heap.Sound`) when arrays of references hold `null` and references only and every
interned text has its object. It grows (`Heap.Grows`) when the contents that never change, strings and
class objects, stay where they are. So the value of a constant remains one (`IsConstant.grows`).
-/

namespace Jvm

/-- An array of references holds `null` and references only. -/
def ArrayObject.Sound : ArrayObject → Prop
  | reference _ es => ∀ v ∈ es, v.isReferenceLike = true
  | _ => True

namespace ArrayObject

theorem sound_put {a : ArrayObject} (ha : a.Sound) (i : Nat) (v : Value) : (a.put i v).Sound := by
  cases a with
  | reference c es =>
    intro u hu
    by_cases hv : v.isReferenceLike = true
    · simp only [hv, if_true] at hu
      rcases Array.mem_or_eq_of_mem_setIfInBounds hu with hu | rfl
      · exact ha u hu
      · exact hv
    · rw [if_neg hv] at hu
      exact ha u hu
  | _ => cases v <;> trivial

theorem sound_ofComponent (t : FieldType) (length : Nat) : (ofComponent t length).Sound := by
  have hnull : ∀ c, (reference c (Array.replicate length .null)).Sound := by
    intro c v hv
    rw [(Array.mem_replicate.1 hv).2]
    rfl
  cases t <;> first | trivial | exact hnull _

theorem sound_zeros (t : ArrayType) (length : Nat) : (zeros t length).Sound := by
  cases t <;> trivial

theorem mem_splice {α : Type} {target source : Array α} {offset start count : Nat} {x : α}
    (hx : x ∈ splice target offset source start count) : x ∈ target ∨ x ∈ source := by
  obtain ⟨i, hi, rfl⟩ := Array.mem_mapIdx.1 hx
  split
  · cases hs : source[start + (i - offset)]? with
    | none => exact .inl (Array.getElem_mem hi)
    | some y => exact .inr (Array.mem_of_getElem? hs)
  · exact .inl (Array.getElem_mem hi)

/-- The references that a copy leaves in an array were in one of the two arrays. -/
theorem exists_of_copyFrom {target source : ArrayObject} {offset start length : Int32} {c : String} {es : Array Value}
    (h : target.copyFrom offset source start length = .ok (reference c es)) : ∃ ts c' ss,
      target = reference c ts ∧ source = reference c' ss ∧ ∀ v ∈ es, v ∈ ts ∨ v ∈ ss := by
  unfold copyFrom at h
  dsimp only at h
  iterate 4
    split at h
    · cases h
  split at h
  case h_9 =>
    cases h
    exact ⟨_, _, _, rfl, rfl, fun v => mem_splice⟩
  all_goals cases h

theorem sound_copyFrom {target source copied : ArrayObject} {offset start length : Int32}
    (ht : target.Sound) (hs : source.Sound)
    (h : target.copyFrom offset source start length = .ok copied) : copied.Sound := by
  cases copied with
  | reference c es =>
    obtain ⟨ts, c', ss, rfl, rfl, hes⟩ := exists_of_copyFrom h
    exact fun v hv => (hes v hv).elim (ht v) (hs v)
  | _ => trivial

theorem exists_get? {a : ArrayObject} {n : Nat} (hn : n < a.size) : ∃ v, a.get? n = some v := by
  cases a <;> exact ⟨_, by simp only [get?, Array.getElem?_eq_getElem (show n < Array.size _ from hn)]; rfl⟩

/-- What a load finds is an element. -/
theorem exists_of_load (a : ArrayObject) {index : Int32} {v : Value} (h : a.load index = .ok v) :
    ∃ n, a.get? n = some v := by
  unfold load at h
  cases hp : a.position index with
  | error => rw [hp] at h; cases h
  | ok n =>
    rw [hp] at h
    have hn : n < a.size := by
      unfold position at hp
      dsimp only at hp
      split at hp
      · cases hp
        omega
      · cases hp
    obtain ⟨u, hu⟩ := exists_get? hn
    dsimp only at h
    rw [hu] at h
    cases h
    exact ⟨n, hu⟩

end ArrayObject

namespace Payload

/-- An array is in order. -/
def Sound : Payload → Prop
  | array a => a.Sound
  | _ => True

/-- Contents that never change. -/
def Lasting : Payload → Prop
  | string _ | classObject _ => True
  | _ => False

end Payload

/-- A kind of contents that changes in place, so that none of it is lasting. -/
structure View.Mutable {α : Type} (view : View α) : Prop where
  lasting : ∀ p, p.Lasting → view.read? p = none
  make_read : ∀ p a, view.read? p = some a → view.make a = p
  kind_make : ∀ a, (view.make a).kind = view.kind

namespace Heap

/-- The contents of the object of a number, once it is constructed. -/
def contents? (h : Heap) (id : Nat) : Option Payload := (h.objects[id]?).bind (·.payload)

/-- Something holds of the contents of every object. -/
def Holds (P : Payload → Prop) (h : Heap) : Prop := ∀ id p, h.contents? id = some p → P p

structure Sound (h : Heap) : Prop where
  arrays : ∀ id p, h.contents? id = some p → p.Sound
  interned : ∀ text id, h.interned? text = some id → h.contents? id = some (.string text)

/-- Lasting contents stay. -/
def Grows (h h' : Heap) : Prop :=
  ∀ id p, p.Lasting → h.contents? id = some p → h'.contents? id = some p

/-- The value is that of a constant: a text or class is the contents of the object referred to. -/
def IsConstant (h : Heap) (v : Value) : Constant → Prop
  | .int x => v = .int x
  | .long x => v = .long x
  | .float x => v = .float x
  | .double x => v = .double x
  | .string text => ∃ id, v = .ref id ∧ h.contents? id = some (.string text)
  | .classRef name => ∃ id, v = .ref id ∧ h.contents? id = some (.classObject name)

variable {h h' h'' : Heap} {id : Nat} {p : Payload} {v : Value} {P : Payload → Prop}

theorem Grows.refl (h : Heap) : h.Grows h := fun _ _ _ hp => hp

theorem Grows.trans (h₁ : h.Grows h') (h₂ : h'.Grows h'') : h.Grows h'' :=
  fun id p hl hp => h₂ id p hl (h₁ id p hl hp)

theorem IsConstant.grows {c : Constant} (hg : h.Grows h') (hc : h.IsConstant v c) :
    h'.IsConstant v c := by
  cases c with
  | string text =>
    obtain ⟨id, rfl, hp⟩ := hc
    exact ⟨id, rfl, hg id _ trivial hp⟩
  | classRef name =>
    obtain ⟨id, rfl, hp⟩ := hc
    exact ⟨id, rfl, hg id _ trivial hp⟩
  | _ => exact hc

theorem IsConstant.width {c : Constant} (hc : h.IsConstant v c) : v.width = c.width := by
  cases c with
  | string text => obtain ⟨id, rfl, -⟩ := hc; rfl
  | classRef name => obtain ⟨id, rfl, -⟩ := hc; rfl
  | _ => cases hc; rfl

theorem sound_empty (limit : Nat) : (empty limit).Sound :=
  ⟨fun id p hp => by simp [contents?, empty] at hp, fun text id hi => by simp [interned?, empty] at hi⟩

/-! ### Sizes -/

@[simp] theorem size_push (h : Heap) (className : String) (p : Option Payload) :
    (h.push className p).2.size = h.size + 1 := Array.size_push ..

@[simp] theorem size_pushInterned (h : Heap) (text : Units) : (h.pushInterned text).2.size = h.size + 1 :=
  h.size_push _ _

@[simp] theorem size_setPayload (h : Heap) (id : Nat) (p : Payload) : (h.setPayload id p).size = h.size :=
  Array.size_modify ..

@[simp] theorem size_edit {α : Type} (h : Heap) (view : View α) (id : Nat) (f : α → α) :
    (h.edit view id f).size = h.size := Array.size_modify ..

/-! ### A new object -/

theorem contents?_push (h : Heap) (className : String) (p : Option Payload) (id : Nat) :
    (h.push className p).2.contents? id = if id = h.size then p else h.contents? id := by
  change ((h.objects.push ⟨className, p⟩)[id]?).bind (·.payload) =
    if id = h.objects.size then p else (h.objects[id]?).bind (·.payload)
  rw [Array.getElem?_push]
  split <;> rfl

theorem contents?_size (h : Heap) : h.contents? h.size = none := by simp [contents?, size]

theorem lt_size_of_contents? (hp : h.contents? id = some p) : id < h.size := by
  obtain ⟨o, ho, -⟩ := Option.bind_eq_some_iff.1 hp
  exact (Array.getElem?_eq_some_iff.1 ho).1

theorem Holds.push (hs : h.Holds P) (className : String) {p : Option Payload}
    (hp : ∀ q, p = some q → P q) : (h.push className p).2.Holds P := by
  intro id q hq
  rw [contents?_push] at hq
  split at hq
  · exact hp q hq
  · exact hs id q hq

/-! ### Contents that are set or changed -/

theorem contents?_setPayload (h : Heap) (id : Nat) (p : Payload) (n : Nat) :
    (h.setPayload id p).contents? n = if n = id ∧ n < h.size then some p else h.contents? n := by
  change ((h.objects.modify id fun o => { o with payload := some p })[n]?).bind (·.payload) =
    if n = id ∧ n < h.objects.size then some p else (h.objects[n]?).bind (·.payload)
  rw [Array.getElem?_modify]
  by_cases hn : id = n
  · subst hn
    by_cases hlt : id < h.objects.size <;> simp [hlt]
  · rw [if_neg hn, if_neg fun hc => hn hc.1.symm]

theorem Holds.setPayload (hs : h.Holds P) (id : Nat) (hp : P p) : (h.setPayload id p).Holds P := by
  intro n q hq
  rw [contents?_setPayload] at hq
  split at hq
  · cases hq
    exact hp
  · exact hs n q hq

variable {α : Type} {view : View α}

theorem contents?_edit (h : Heap) (view : View α) (id : Nat) (f : α → α) (n : Nat) :
    (h.edit view id f).contents? n =
      if n = id then (h.contents? n).map (view.edited f) else h.contents? n := by
  simp only [contents?, edit, Array.getElem?_modify]
  by_cases hn : id = n
  · subst hn
    simp only [if_true]
    cases h.objects[id]? <;> rfl
  · rw [if_neg hn, if_neg (fun hc => hn hc.symm)]

theorem Holds.edit (hv : view.Mutable) (hs : h.Holds P) (id : Nat) {f : α → α}
    (hf : ∀ a, P (view.make a) → P (view.make (f a))) : (h.edit view id f).Holds P := by
  intro n q hq
  rw [contents?_edit] at hq
  split at hq
  · obtain ⟨p, hp, rfl⟩ := Option.map_eq_some_iff.1 hq
    have hold := hs n p hp
    unfold View.edited
    cases hr : view.read? p with
    | none => exact hold
    | some a => exact hf a (hv.make_read p a hr ▸ hold)
  · exact hs n q hq

/-- An operation finds the contents of an object where it is given a reference to one that has any. -/
theorem payload_eq_ok : h.payload v = .ok p ↔ ∃ id, v = .ref id ∧ h.contents? id = some p := by
  cases v with
  | ref id =>
    simp only [payload, object, idOf, contents?, bind, Except.bind, Value.ref.injEq, exists_eq_left']
    cases h.objects[id]? with
    | none => simp
    | some o => cases hq : o.payload <;> simp [hq]
  | _ => simp [payload, object, idOf, bind, Except.bind]

theorem narrow_eq_ok {α : Type} {view : View α} {a : α} :
    h.narrow view v = .ok a ↔ ∃ id p, v = .ref id ∧ h.contents? id = some p ∧ view.read? p = some a := by
  constructor
  · intro ha
    simp only [narrow, bind, Except.bind] at ha
    cases hp : h.payload v with
    | error => rw [hp] at ha; cases ha
    | ok p =>
      obtain ⟨id, hv, hid⟩ := payload_eq_ok.1 hp
      rw [hp] at ha
      cases hr : view.read? p with
      | none => simp only [hr] at ha; cases ha
      | some b =>
        simp only [hr] at ha
        cases ha
        exact ⟨id, p, hv, hid, hr⟩
  · rintro ⟨id, p, hv, hid, hr⟩
    simp only [narrow, payload_eq_ok.2 ⟨id, hv, hid⟩, bind, Except.bind, hr]

/-- What holds of the contents of all objects holds of those that are found. -/
theorem Holds.narrow {α : Type} {view : View α} {Q : α → Prop} (hs : h.Holds P)
    (hview : ∀ p, P p → ∀ a, view.read? p = some a → Q a) {a : α} (ha : h.narrow view v = .ok a) : Q a := by
  obtain ⟨id, p, -, hid, hr⟩ := narrow_eq_ok.1 ha
  exact hview p (hs id p hid) a hr

theorem narrow_string {text : Units} :
    h.narrow View.string v = .ok text ↔ ∃ id, v = .ref id ∧ h.contents? id = some (.string text) := by
  rw [← payload_eq_ok, narrow]
  cases hp : h.payload v with
  | error => simp [bind, Except.bind]
  | ok p => cases p <;> simp [bind, Except.bind, View.string]

/-- An object that may be constructed has no contents yet. -/
theorem contents?_unconstructed {expected : String} (hu : h.unconstructed v expected = .ok id) :
    h.contents? id = none := by
  simp only [unconstructed, object, bind, Except.bind] at hu
  cases hid : idOf v with
  | error => simp only [hid] at hu; cases hu
  | ok n =>
    simp only [hid] at hu
    cases ho : h.objects[n]? with
    | none => simp only [ho] at hu; cases hu
    | some o =>
      simp only [ho] at hu
      split at hu
      · cases hu
      split at hu
      · cases hu
      rename_i hnone
      cases hu
      simpa [contents?, ho] using hnone

end Heap

/-! ### Which contents change in place -/

namespace View

/-- It is enough that a view reads what it makes, and makes nothing that lasts. -/
theorem Mutable.of_read {α : Type} {view : View α} (hread : ∀ p a, view.read? p = some a → view.make a = p)
    (hlasting : ∀ a, ¬ (view.make a).Lasting) (hkind : ∀ a, (view.make a).kind = view.kind) : view.Mutable where
  lasting p hp := by
    cases ha : view.read? p with
    | none => rfl
    | some a => exact absurd (hread p a ha ▸ hp) (hlasting a)
  make_read := hread
  kind_make := hkind

theorem mutable_builder : builder.Mutable :=
  .of_read (fun p a ha => by cases p <;> cases ha; rfl) (fun _ => id) fun _ => rfl

theorem mutable_array : array.Mutable :=
  .of_read (fun p a ha => by cases p <;> cases ha; rfl) (fun _ => id) fun _ => rfl

theorem mutable_sink : sink.Mutable :=
  .of_read (fun p a ha => by cases p <;> cases ha; rfl) (fun _ => id) fun _ => rfl

theorem mutable_source : source.Mutable :=
  .of_read (fun p a ha => by cases p <;> cases ha; rfl) (fun _ => id) fun _ => rfl

theorem mutable_zipStream : zipStream.Mutable :=
  .of_read (fun p a ha => by cases p <;> cases ha; rfl) (fun _ => id) fun _ => rfl

theorem mutable_method : method.Mutable :=
  .of_read (fun p a ha => by cases p <;> cases ha; rfl) (fun _ => id) fun _ => rfl

theorem mutable_iterator : iterator.Mutable :=
  .of_read (fun p a ha => by cases p <;> cases ha; rfl) (fun _ => id) fun _ => rfl

theorem mutable_digest : digest.Mutable :=
  .of_read (fun p a ha => by cases p <;> cases ha; rfl) (fun _ => id) fun _ => rfl

theorem mutable_record : record.Mutable :=
  .of_read (fun p a ha => by cases p <;> cases ha; rfl) (fun _ => id) fun _ => rfl

end View

end Jvm
