import Jvm.Library.Arguments
import Jvm.Proofs.Machine.NestedArrays
import Jvm.Proofs.Machine.Sparing

/-!
# Rows of new objects

A native method that lists something makes an object for each entry and then an array of them. The new objects stand
behind those that are there (`Heap.append`), so that all of the earlier ones are as they were. `listing_apply` says
what is found in the array: its elements refer to objects with the contents that were asked for, in this order
(`Heap.Lists`).
-/

namespace Jvm

/-- An object of the class that its contents suggest. -/
def Payload.object (p : Payload) : HeapObject := ⟨p.className, some p⟩

namespace Heap

/-- The heap with more objects behind those that are there. -/
def append (h : Heap) (os : List HeapObject) : Heap := { h with objects := h.objects ++ os.toArray }

/-- The value refers to an array of references to objects of these contents, in this order. -/
def Lists (h : Heap) (v : Value) (descriptor : String) (ps : List Payload) : Prop :=
  ∃ id elements, v = .ref id ∧ h.contents? id = some (.array (.reference descriptor elements)) ∧
    elements.toList.map h.payload = ps.map .ok

variable {h : Heap} {os os' : List HeapObject} {o : HeapObject} {p : Payload} {id n : Nat}

@[simp] theorem append_nil (h : Heap) : h.append [] = h := by simp [append]

theorem append_append (h : Heap) (os os' : List HeapObject) : (h.append os).append os' = h.append (os ++ os') := by
  simp [append]

theorem push_eq_append (h : Heap) (className : String) (p : Option Payload) :
    h.push className p = (.ref h.size, h.append [⟨className, p⟩]) := by
  simp [push, append]

@[simp] theorem size_append (h : Heap) (os : List HeapObject) : (h.append os).size = h.size + os.length := by
  simp [append, size]

theorem getElem?_append_of_some (ho : h.objects[id]? = some o) : (h.append os).objects[id]? = some o := by
  obtain ⟨hlt, -⟩ := Array.getElem?_eq_some_iff.1 ho
  rw [append, Array.getElem?_append_left hlt, ho]

theorem getElem?_append_size_add (h : Heap) (os : List HeapObject) (i : Nat) :
    (h.append os).objects[h.size + i]? = os[i]? := by
  have hbehind : h.objects.size ≤ h.size + i := Nat.le_add_right ..
  rw [append, Array.getElem?_append_right hbehind, size, Nat.add_sub_cancel_left, List.getElem?_toArray]

theorem contents?_append_of_some (hp : h.contents? id = some p) : (h.append os).contents? id = some p := by
  obtain ⟨o, ho, hpayload⟩ := Option.bind_eq_some_iff.1 hp
  rw [contents?, getElem?_append_of_some ho]
  exact hpayload

theorem contents?_append_size_add {i : Nat} (ho : os[i]? = some o) :
    (h.append os).contents? (h.size + i) = o.payload := by
  rw [contents?, getElem?_append_size_add, ho, Option.bind_some]

theorem contents?_append_size (h : Heap) (o : HeapObject) (os : List HeapObject) :
    (h.append (o :: os)).contents? h.size = o.payload := contents?_append_size_add (i := 0) rfl

theorem HasRoom.append (hroom : h.HasRoom (os.length + n)) : (h.append os).HasRoom n := by
  unfold HasRoom at *
  rw [size_append]
  simp only [Heap.append]
  omega

end Heap

namespace Exec

variable {α β : Type} {x : Exec α} {f : α → Exec β} {a : α} {w : World} {s t : State}

theorem bind_of_ok (hx : x w s = .ok a t) : (x >>= f) w s = f a w t := by rw [bind_apply, hx]

theorem ofExcept_of_ok {r : Except Fault α} (hr : r = .ok a) (w : World) (s : State) :
    (liftM r : Exec α) w s = .ok a s := by
  rw [hr]
  rfl

theorem narrow_of_ok {view : View α} {v : Value} (ha : s.heap.narrow view v = .ok a) (w : World) :
    narrow view v w s = .ok a s := by
  rw [narrow, readHeap_apply, ha]

end Exec

namespace Call

variable {α : Type} {c : Call} {v : Value} {a : α} {text : Units} {view : View α} {index : Nat} {s : State}

theorem argument_eq (hv : c.arguments[index]? = some v) : c.argument index = .ok v := by rw [argument, hv]

/-- The contents of the receiver. -/
theorem narrowThis_apply (hthis : c.receiver = some v) (ha : s.heap.narrow view v = .ok a) (w : World) :
    c.narrowThis view w s = .ok a s := by
  change (liftM c.this >>= fun this => Exec.narrow view this) w s = _
  rw [Exec.bind_of_ok (Exec.ofExcept_of_ok (this_eq hthis) w s), Exec.narrow_of_ok ha]

theorem stringArgument_apply (hv : c.arguments[index]? = some v) (htext : s.heap.narrow View.string v = .ok text)
    (w : World) : c.stringArgument index w s = .ok text s := by
  rw [stringArgument, Exec.bind_of_ok (Exec.ofExcept_of_ok (argument_eq hv) w s), Exec.narrow_of_ok htext]

end Call

/-- The state with more objects in its heap. -/
def State.append (s : State) (os : List HeapObject) : State := { s with heap := s.heap.append os }

theorem State.append_append (s : State) (os os' : List HeapObject) : (s.append os).append os' = s.append (os ++ os') :=
  congrArg (fun heap => { s with heap }) (s.heap.append_append os os')

theorem State.spares_append (s : State) (os : List HeapObject) : s.Spares (s.append os) :=
  ⟨rfl, rfl, rfl, rfl, fun _ _ => Heap.getElem?_append_of_some⟩

namespace Exec

variable {w : World} {s : State}

theorem make_apply (hroom : s.heap.HasRoom 1) (className : String) (p : Option Payload) (w : World) :
    make className p w s = .ok (.ref s.heap.size) (s.append [⟨className, p⟩]) := by
  rw [onHeap_make, Heap.making_of_hasRoom hroom, Heap.push_eq_append]
  rfl

theorem allocate_apply (hroom : s.heap.HasRoom 1) (p : Payload) (w : World) :
    allocate p w s = .ok (.ref s.heap.size) (s.append [p.object]) := make_apply hroom _ _ w

theorem allocate_of_not_hasRoom (hroom : ¬ s.heap.HasRoom 1) (p : Payload) (w : World) :
    ∃ e, allocate p w s = .error e s := by
  have hfull : s.heap.limit ≤ s.heap.size ∨ 0x100000000 ≤ s.heap.size := by
    unfold Heap.HasRoom at hroom
    omega
  refine ⟨.error (.emulation (.heapLimit s.heap.limit)), ?_⟩
  change make p.className (some p) w s = _
  rw [onHeap_make, Heap.making, Heap.checkRoom, if_pos hfull]
  rfl

/-- References to so many objects in a row. -/
def refsFrom (first count : Nat) : List Value := (List.range count).map fun i => .ref (first + i)

theorem refsFrom_succ (first count : Nat) :
    refsFrom first (count + 1) = .ref first :: refsFrom (first + 1) count := by
  simp [refsFrom, List.range_succ_eq_map, Function.comp_def, Nat.add_assoc, Nat.add_comm 1]

theorem mapM_allocate_apply {α : Type} (f : α → Payload) (xs : List α) (hroom : s.heap.HasRoom xs.length) (w : World) :
    xs.mapM (fun x => allocate (f x)) w s =
      .ok (refsFrom s.heap.size xs.length) (s.append (xs.map fun x => (f x).object)) := by
  induction xs generalizing s with
  | nil => rw [List.map_nil, State.append, Heap.append_nil]; rfl
  | cons x xs ih =>
    have hone : s.heap.HasRoom 1 := hroom.mono (by simp)
    have hrest : (s.append [(f x).object]).heap.HasRoom xs.length :=
      Heap.HasRoom.append (by rwa [List.length_singleton, Nat.add_comm])
    rw [List.mapM_cons, bind_of_ok (allocate_apply hone _ w), bind_of_ok (ih hrest), State.append_append,
      List.length_cons, refsFrom_succ]
    simp [State.append]

/-- New objects are found in the order in which they were asked for. -/
theorem payload_refsFrom (s : State) (ps : List Payload) (os : List HeapObject) :
    (refsFrom s.heap.size ps.length).map (s.append (ps.map Payload.object ++ os)).heap.payload = ps.map .ok := by
  refine List.ext_getElem? fun i => ?_
  rw [refsFrom, List.map_map, List.getElem?_map, List.getElem?_map]
  by_cases hi : i < ps.length
  · have ho : (ps.map Payload.object ++ os)[i]? = some ps[i].object := by
      rw [List.getElem?_append_left (by simpa using hi)]
      simp [hi]
    have hcontents := Heap.contents?_append_size_add (h := s.heap) ho
    rw [List.getElem?_range hi, List.getElem?_eq_getElem hi]
    exact congrArg some (Heap.payload_eq_ok.2 ⟨_, rfl, hcontents⟩)
  · rw [List.getElem?_eq_none (by simpa using hi), List.getElem?_eq_none (by simpa using hi)]
    rfl

/-- An object for each entry of a list and an array of these objects. -/
theorem listing_apply {α : Type} (f : α → Payload) (xs : List α) (component : String)
    (hcomponent : component.toList.head? ≠ some '[') (hroom : s.heap.HasRoom (xs.length + 1)) (w : World) :
    ∃ v os, (xs.mapM (fun x => allocate (f x)) >>= newReferences component) w s = .ok v (s.append os) ∧
      os.length = xs.length + 1 ∧ (s.append os).heap.Lists v ("L" ++ component ++ ";") (xs.map f) := by
  have hrow : s.heap.HasRoom xs.length := hroom.mono (Nat.le_succ _)
  have hlast : (s.append (xs.map fun x => (f x).object)).heap.HasRoom 1 :=
    Heap.HasRoom.append (by rwa [List.length_map])
  have hrefs : xs.length = (xs.map f).length := (List.length_map _).symm
  have hobjects : xs.map (fun x => (f x).object) = (xs.map f).map Payload.object := by simp [Function.comp_def]
  rw [bind_of_ok (mapM_allocate_apply f xs hrow w), newReferences, if_neg hcomponent, allocate_apply hlast,
    State.append_append, hobjects]
  refine ⟨_, _, rfl, by simp, _, (refsFrom s.heap.size xs.length).toArray, rfl, ?_, ?_⟩
  · rw [← State.append_append]
    exact Heap.contents?_append_size ..
  · rw [hrefs]
    exact payload_refsFrom s (xs.map f) _

end Exec

end Jvm
