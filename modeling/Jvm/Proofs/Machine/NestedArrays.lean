import Jvm.Proofs.Descriptor
import Jvm.Proofs.Machine.Aloof
import Jvm.Proofs.Machine.Heap

/-!
# Arrays of arrays

What `multianewarray` leaves in the heap (`newArrays_builds`): the new objects are exactly the arrays at the paths of
indices that the lengths allow, one object for each path, each with the length and the type of its level, and the
elements of the last level have their initial values. What was in the heap stays as it is.

The arrays are numbered as they are made, an array behind all that hangs below it. So the arrays below one index are a
block of `count rest` numbers, and the number of the array at a path is found by going down the blocks (`place`). A
heap in which such blocks are laid out is described along the lengths (`Laid`); adding more objects keeps that, so the
loop over the elements of a level needs no more than its own step (`adds_replicateExec`).

A type is looked at where its level is entered, and no level below the length zero is. More lengths than the type has
dimensions are therefore refused unless one of those that do belong to a dimension is zero (`takes_iff`): `int[]` takes
the lengths 0 and 5, and the array that comes of it holds references (`newArrays_unentered`).
-/

namespace Jvm

namespace FieldType

variable {t : FieldType} {lengths : List Nat}

/-- How many dimensions an array type has; other types have none. -/
def dimensions : FieldType → Nat
  | array c => c.dimensions + 1
  | _ => 0

/-- The type of what is found so many levels down; below the elements that are no arrays there is nothing else. -/
def componentAt : FieldType → Nat → FieldType
  | array c, n + 1 => c.componentAt n
  | t, _ => t

@[simp] theorem componentAt_zero (t : FieldType) : t.componentAt 0 = t := by cases t <;> rfl

theorem componentAt_of_dimensions (h : t.dimensions = 0) (n : Nat) : t.componentAt n = t := by
  cases t with
  | array c => cases h
  | _ => rfl

theorem descriptor_array (c : FieldType) : (array c).descriptor = "[" ++ c.descriptor := by
  simp [descriptor, descriptorChars]

/-- Arrays of the type are made with these lengths: each level that is entered is one of arrays. -/
def Takes : FieldType → List Nat → Prop
  | array _, [_] => True
  | array c, n :: rest => n = 0 ∨ c.Takes rest
  | _, _ => False

theorem takes_iff :
    t.Takes lengths ↔ lengths ≠ [] ∧ (lengths.length ≤ t.dimensions ∨ 0 ∈ lengths.take t.dimensions) := by
  induction lengths generalizing t with
  | nil => cases t <;> simp [Takes]
  | cons n rest ih =>
    cases t with
    | array c =>
      cases rest with
      | nil => simp [Takes, dimensions]
      | cons m rest =>
        have htakes : (array c).Takes (n :: m :: rest) ↔ n = 0 ∨ c.Takes (m :: rest) := Iff.rfl
        rw [htakes, ih, dimensions, List.take_succ_cons, List.mem_cons, List.length_cons (a := n)]
        simp only [ne_eq, reduceCtorEq, not_false_eq_true, true_and, Nat.add_le_add_iff_right]
        rw [or_left_comm, eq_comm]
    | _ => simp [Takes, dimensions]

end FieldType

namespace ArrayObject

variable {c : FieldType} {n i : Nat}

theorem descriptor_ofComponent (c : FieldType) (n : Nat) :
    (ofComponent c n).descriptor = (FieldType.array c).descriptor := by
  cases c <;> first | rfl | exact (FieldType.descriptor_array _).symm

theorem size_ofComponent (c : FieldType) (n : Nat) : (ofComponent c n).size = n := by
  cases c <;> simp [ofComponent, zeros, size]

/-- A new array holds the initial value of its component type. -/
theorem get?_ofComponent (hc : c ≠ .void) (hi : i < n) : (ofComponent c n).get? i = some (.initial c) := by
  cases c with
  | void => exact absurd rfl hc
  | _ => simp [ofComponent, zeros, get?, hi, Value.initial]

end ArrayObject

/-! ### Paths of indices and the numbers of arrays -/

namespace Lengths

variable {lengths path p q : List Nat} {id : Nat}

/-- How many arrays are made in all: those below each element, and the array itself. -/
def count : List Nat → Nat
  | [] => 0
  | n :: rest => n * count rest + 1

/-- The indices lead down through arrays of these lengths. -/
def IsPath : List Nat → List Nat → Prop
  | _, [] => True
  | [], _ :: _ => False
  | n :: rest, i :: path => i < n ∧ IsPath rest path

/-- How many arrays are made before the one at a path. -/
def place : List Nat → List Nat → Nat
  | [], _ => 0
  | n :: rest, [] => n * count rest
  | _ :: rest, i :: path => i * count rest + place rest path

/-- Block after block: a position inside of one of the first blocks lies before the next one. -/
theorem mul_add_lt {i n m r : Nat} (hi : i < n) (hr : r < m) : i * m + r < n * m :=
  calc i * m + r < i * m + m := Nat.add_lt_add_left hr _
    _ = (i + 1) * m := (Nat.succ_mul i m).symm
    _ ≤ n * m := Nat.mul_le_mul_right m hi

/-- The number of a block is what its positions give when they are divided by its size. -/
theorem div_block {i m r : Nat} (hr : r < m) : (i * m + r) / m = i := by
  rw [Nat.mul_comm, Nat.mul_add_div (Nat.zero_lt_of_lt hr), Nat.div_eq_of_lt hr, Nat.add_zero]

theorem place_lt (hp : IsPath lengths path) (hlt : path.length < lengths.length) :
    place lengths path < count lengths := by
  induction lengths generalizing path with
  | nil => cases hlt
  | cons n rest ih =>
    cases path with
    | nil => exact Nat.lt_succ_self _
    | cons i path => exact Nat.lt_succ_of_lt (mul_add_lt hp.1 (ih hp.2 (Nat.lt_of_succ_lt_succ hlt)))

/-- Different paths lead to different arrays. -/
theorem eq_of_place_eq (hp : IsPath lengths p) (hpl : p.length < lengths.length) (hq : IsPath lengths q)
    (hql : q.length < lengths.length) (h : place lengths p = place lengths q) : p = q := by
  induction lengths generalizing p q with
  | nil => cases hpl
  | cons n rest ih =>
    -- the array itself stands behind all blocks
    cases p with
    | nil =>
      cases q with
      | nil => rfl
      | cons j q =>
        exact absurd h (Nat.ne_of_gt (mul_add_lt hq.1 (place_lt hq.2 (Nat.lt_of_succ_lt_succ hql))))
    | cons i p =>
      have hplace := place_lt hp.2 (Nat.lt_of_succ_lt_succ hpl)
      cases q with
      | nil => exact absurd h (Nat.ne_of_lt (mul_add_lt hp.1 hplace))
      | cons j q =>
        have hqplace := place_lt hq.2 (Nat.lt_of_succ_lt_succ hql)
        change i * count rest + place rest p = j * count rest + place rest q at h
        have hij : i = j := by rw [← div_block (i := i) hplace, h, div_block hqplace]
        subst hij
        rw [ih hp.2 (Nat.lt_of_succ_lt_succ hpl) hq.2 (Nat.lt_of_succ_lt_succ hql) (Nat.add_left_cancel h)]

/-- Every number is that of the array at some path: dividing it tells the block and the number inside of it. -/
theorem exists_path (hid : id < count lengths) :
    ∃ path, IsPath lengths path ∧ path.length < lengths.length ∧ place lengths path = id := by
  induction lengths generalizing id with
  | nil => cases hid
  | cons n rest ih =>
    rcases Nat.lt_or_eq_of_le (Nat.le_of_lt_succ hid) with hlt | rfl
    · have hpos : 0 < count rest := Nat.pos_of_mul_pos_left (Nat.zero_lt_of_lt hlt)
      obtain ⟨path, hp, hl, hplace⟩ := ih (Nat.mod_lt id hpos)
      refine ⟨id / count rest :: path, ⟨(Nat.div_lt_iff_lt_mul hpos).2 hlt, hp⟩, Nat.succ_lt_succ hl, ?_⟩
      rw [place, hplace, Nat.mul_comm]
      exact Nat.div_add_mod id (count rest)
    · exact ⟨[], trivial, Nat.succ_pos _, rfl⟩

end Lengths

open Lengths

/-! ### Heaps with more objects -/

namespace Heap

variable {h h' h'' : Heap} {n m : Nat}

/-- There may be so many more objects. -/
def HasRoom (h : Heap) (n : Nat) : Prop := h.size + n ≤ h.limit ∧ h.size + n ≤ 0x100000000

instance (h : Heap) (n : Nat) : Decidable (h.HasRoom n) := inferInstanceAs (Decidable (_ ∧ _))

/-- The objects that are there stay as they are. -/
structure Extends (h h' : Heap) : Prop where
  objects : ∀ (id : Nat) (o : HeapObject), h.objects[id]? = some o → h'.objects[id]? = some o
  interned : h'.interned = h.interned
  limit : h'.limit = h.limit

theorem Extends.refl (h : Heap) : h.Extends h := ⟨fun _ _ ho => ho, rfl, rfl⟩

theorem Extends.trans (h₁ : h.Extends h') (h₂ : h'.Extends h'') : h.Extends h'' :=
  ⟨fun id o ho => h₂.objects id o (h₁.objects id o ho), h₂.interned.trans h₁.interned, h₂.limit.trans h₁.limit⟩

theorem extends_push (h : Heap) (className : String) (p : Option Payload) : h.Extends (h.push className p).2 := by
  refine ⟨fun id o ho => ?_, rfl, rfl⟩
  obtain ⟨hlt, -⟩ := Array.getElem?_eq_some_iff.1 ho
  rw [push, Array.getElem?_push, if_neg (Nat.ne_of_lt hlt)]
  exact ho

theorem HasRoom.mono (hroom : h.HasRoom m) (hn : n ≤ m) : h.HasRoom n := by
  unfold HasRoom at *
  omega

/-- What is left of the room once some of the objects are there. -/
theorem HasRoom.rest (hroom : h.HasRoom (n + m)) (hext : h.Extends h') (hsize : h'.size = h.size + n) :
    h'.HasRoom m := by
  unfold HasRoom at *
  rw [hext.limit]
  omega

theorem making_of_hasRoom (hroom : h.HasRoom 1) (className : String) (p : Option Payload) :
    making className p h = .ok (h.push className p) := by
  have hfull : ¬(h.limit ≤ h.size ∨ 0x100000000 ≤ h.size) := by
    unfold HasRoom at hroom
    omega
  rw [making, checkRoom, if_neg hfull]
  rfl

end Heap

namespace Exec

variable {α β : Type} {n m : Nat} {P : Nat → Heap → α → Prop} {Q : Nat → Heap → β → Prop}

/-- Where there is room for them, the action adds so many objects to the heap and changes nothing else; this holds of
the number of the first of them, the heap and the result. -/
def Adds (x : Exec α) (n : Nat) (P : Nat → Heap → α → Prop) : Prop :=
  ∀ w s, s.heap.HasRoom n → ∃ a heap, x w s = .ok a { s with heap } ∧ s.heap.Extends heap ∧
    heap.size = s.heap.size + n ∧ P s.heap.size heap a

theorem Adds.pure {a : α} (h : ∀ b heap, P b heap a) : (Pure.pure a : Exec α).Adds 0 P :=
  fun _ s _ => ⟨a, s.heap, rfl, .refl _, rfl, h _ _⟩

theorem Adds.bind {x : Exec α} {f : α → Exec β} {R : α → Nat → Heap → β → Prop} (hx : x.Adds n P)
    (hf : ∀ a, (f a).Adds m (R a))
    (hQ : ∀ b h h' a r, P b h a → h.Extends h' → R a (b + n) h' r → Q b h' r) : (x >>= f).Adds (n + m) Q := by
  intro w s hroom
  obtain ⟨a, h, hrun, hext, hsize, ha⟩ := hx w s (hroom.mono (Nat.le_add_right n m))
  obtain ⟨r, h', hrun', hext', hsize', hr⟩ := hf a w { s with heap := h } (hroom.rest hext hsize)
  refine ⟨r, h', ?_, hext.trans hext', ?_, hQ _ h h' a r ha hext' (hsize ▸ hr)⟩
  · rw [bind_apply, hrun]
    exact hrun'
  · change h'.size = h.size + m at hsize'
    omega

theorem Adds.mono {x : Exec α} {P' : Nat → Heap → α → Prop} (hx : x.Adds n P)
    (h : ∀ b heap a, P b heap a → P' b heap a) : x.Adds n P' := by
  intro w s hroom
  obtain ⟨a, heap, hrun, hext, hsize, ha⟩ := hx w s hroom
  exact ⟨a, heap, hrun, hext, hsize, h _ _ _ ha⟩

theorem adds_make (className : String) (p : Option Payload) :
    (make className p).Adds 1 fun b h v => v = .ref b ∧ h.objects[b]? = some ⟨className, p⟩ := by
  intro w s hroom
  refine ⟨.ref s.heap.size, (s.heap.push className p).2, ?_, Heap.extends_push _ _ _, Heap.size_push _ _ _, rfl, ?_⟩
  · rw [onHeap_make, Heap.making_of_hasRoom hroom]
    rfl
  · exact Array.getElem?_push_size

end Exec

namespace Step

open Exec

/-- Blocks of objects that an action adds one after the other, and what it returns for each of them. -/
theorem adds_replicateExec {act : Exec Value} {n : Nat} {f : Nat → Value} {P : Nat → Heap → Prop}
    (hP : ∀ b h h', P b h → h.Extends h' → P b h') (hact : act.Adds n fun b h v => v = f b ∧ P b h) (m : Nat) :
    (replicateExec act m).Adds (m * n) fun b h vs =>
      vs = (List.range m).map (fun i => f (b + i * n)) ∧ ∀ i < m, P (b + i * n) h := by
  induction m with
  | zero =>
    rw [Nat.zero_mul]
    exact .pure fun _ _ => ⟨rfl, nofun⟩
  | succ m ih =>
    have hcount : (m + 1) * n = n + (m * n + 0) := by rw [Nat.succ_mul, Nat.add_zero, Nat.add_comm]
    rw [hcount]
    have htail (v : Value) : (replicateExec act m >>= fun vs => pure (v :: vs)).Adds (m * n + 0) fun b h vs =>
        vs = v :: (List.range m).map (fun i => f (b + i * n)) ∧ ∀ i < m, P (b + i * n) h :=
      ih.bind (fun vs => Adds.pure (P := fun _ _ ws => ws = v :: vs) fun _ _ => rfl)
        fun b h h' vs ws hvs hext hws => ⟨hws.trans (by rw [hvs.1]), fun i hi => hP _ _ _ (hvs.2 i hi) hext⟩
    refine hact.bind htail fun b h h' v vs hv hext hvs => ?_
    have hshift (i : Nat) : b + n + i * n = b + (i + 1) * n := by
      rw [Nat.succ_mul]
      omega
    refine ⟨?_, fun i hi => ?_⟩
    · rw [hvs.1, hv.1, List.range_succ_eq_map]
      simp [hshift, Function.comp_def]
    · cases i with
      | zero => simpa using hP _ _ _ hv.2 hext
      | succ i => exact hshift i ▸ hvs.2 i (Nat.lt_of_succ_lt_succ hi)

end Step

/-! ### Arrays that are laid out block by block -/

namespace Heap

variable {h h' : Heap} {b n : Nat} {t c : FieldType} {lengths rest path : List Nat} {v : Value}

/-- What is found at the top of a block: the initial value of the type where no lengths are left, else the outermost
array, which has the last number of the block. -/
def root (b : Nat) (t : FieldType) (lengths : List Nat) : Value :=
  if lengths = [] then .initial t else .ref (b + place lengths [])

/-- The array whose elements are at the tops of the blocks from a number on. -/
def level (b : Nat) (c : FieldType) (n : Nat) : List Nat → ArrayObject
  | [] => .ofComponent c n
  | rest@(_ :: _) => .reference c.descriptor ((List.range n).map fun i => root (b + i * count rest) c rest).toArray

theorem descriptor_level (b : Nat) (c : FieldType) (n : Nat) (rest : List Nat) :
    (level b c n rest).descriptor = (FieldType.array c).descriptor := by
  cases rest with
  | nil => exact ArrayObject.descriptor_ofComponent c n
  | cons => exact (FieldType.descriptor_array c).symm

theorem size_level (b : Nat) (c : FieldType) (n : Nat) (rest : List Nat) : (level b c n rest).size = n := by
  cases rest with
  | nil => exact ArrayObject.size_ofComponent c n
  | cons => simp [level, ArrayObject.size]

theorem get?_level {i : Nat} (hc : c ≠ .void) (hi : i < n) :
    (level b c n rest).get? i = some (root (b + i * count rest) c rest) := by
  cases rest with
  | nil => exact ArrayObject.get?_ofComponent hc hi
  | cons => simp [level, ArrayObject.get?, hi]

/-- From a number on, the heap holds the arrays of a type with these lengths: a block for each element of the outermost
array, and then that array. -/
def Laid (h : Heap) : Nat → FieldType → List Nat → Prop
  | _, _, [] => True
  | b, t, n :: rest => ∃ c, t = .array c ∧ (∀ i < n, h.Laid (b + i * count rest) c rest) ∧
      h.objects[b + n * count rest]? = some ⟨t.descriptor, some (.array (level b c n rest))⟩

theorem Laid.mono (hl : h.Laid b t lengths) (hext : h.Extends h') : h'.Laid b t lengths := by
  induction lengths generalizing b t with
  | nil => trivial
  | cons n rest ih =>
    obtain ⟨c, rfl, hblocks, harray⟩ := hl
    exact ⟨c, rfl, fun i hi => ih (hblocks i hi), hext.objects _ _ harray⟩

/-- What is found from a value on along a path of indices. -/
def follow (h : Heap) : Value → List Nat → Option Value
  | v, [] => some v
  | .ref id, i :: path =>
    match h.contents? id with
    | some (.array a) =>
      match a.get? i with
      | some v => h.follow v path
      | none => none
    | _ => none
  | _, _ :: _ => none

theorem follow_cons {id i : Nat} {a : ArrayObject} {u : Value} (hid : h.contents? id = some (.array a))
    (hu : a.get? i = some u) (path : List Nat) : h.follow (.ref id) (i :: path) = h.follow u path := by
  rw [follow, hid]
  dsimp only
  rw [hu]

/-- A path leads to the top of a block, which holds the arrays of the type that is reached with the lengths that are
left. -/
theorem Laid.follow (hl : h.Laid b t lengths) (ht : t.IsValue) (hp : IsPath lengths path) : ∃ b',
    h.follow (root b t lengths) path = some (root b' (t.componentAt path.length) (lengths.drop path.length)) ∧
      h.Laid b' (t.componentAt path.length) (lengths.drop path.length) ∧
      b' + place (lengths.drop path.length) [] = b + place lengths path := by
  induction path generalizing b t lengths with
  | nil => exact ⟨b, by simp [Heap.follow], by simpa using hl, rfl⟩
  | cons i path ih =>
    cases lengths with
    | nil => exact hp.elim
    | cons n rest =>
      obtain ⟨c, rfl, hblocks, harray⟩ := hl
      have hc : c.IsValue := ht
      obtain ⟨b', hfollow, hlaid, hplace⟩ := ih (hblocks i hp.1) hc hp.2
      refine ⟨b', ?_, hlaid, ?_⟩
      · have hid : h.contents? (b + n * count rest) = some (.array (level b c n rest)) := by
          rw [contents?, harray]
          rfl
        exact (follow_cons hid (get?_level hc.ne_void hp.1) path).trans hfollow
      · change b' + place (rest.drop path.length) [] = b + (i * count rest + place rest path)
        omega

end Heap

namespace Step

open Exec Heap

variable {t : FieldType} {lengths : List Nat}

/-- No level is entered without a length or where the type is none of arrays. -/
theorem no_level (hone : ∀ c n, t = .array c → lengths = [n] → False)
    (hmore : ∀ c n m rest, t = .array c → lengths = n :: m :: rest → False) : lengths = [] ∨ t.dimensions = 0 := by
  cases t with
  | array c =>
    match lengths with
    | [] => exact .inl rfl
    | [n] => exact (hone c n rfl rfl).elim
    | n :: m :: rest => exact (hmore c n m rest rfl rfl).elim
  | _ => exact .inr rfl

/-- Where each level that is entered is one of arrays, they are all made and laid out. -/
theorem adds_newArrays (h : t.Takes lengths) :
    (newArrays t lengths).Adds (count lengths) fun b heap v => v = root b t lengths ∧ heap.Laid b t lengths := by
  fun_induction newArrays t lengths with
  | case1 c n =>
    rw [count, count, Nat.mul_zero]
    refine (adds_make _ _).mono fun b heap v hv => ⟨hv.1, c, rfl, fun _ _ => trivial, ?_⟩
    rw [← ArrayObject.descriptor_ofComponent c n]
    exact hv.2
  | case2 c n m rest ih =>
    have helements : (replicateExec (newArrays c (m :: rest)) n).Adds (n * count (m :: rest)) fun b heap vs =>
        vs = (List.range n).map (fun i => root (b + i * count (m :: rest)) c (m :: rest)) ∧
          ∀ i < n, heap.Laid (b + i * count (m :: rest)) c (m :: rest) := by
      rcases h with rfl | h
      · rw [Nat.zero_mul]
        exact .pure fun _ _ => ⟨rfl, fun i hi => absurd hi i.not_lt_zero⟩
      · exact adds_replicateExec (f := fun b => root b c (m :: rest)) (P := fun b heap => heap.Laid b c (m :: rest))
          (fun _ _ _ hl => hl.mono) (ih h) n
    refine helements.bind (fun _ => adds_make _ _) fun b heap heap' vs v hvs hext hv => ?_
    refine ⟨hv.1, c, rfl, fun i hi => (hvs.2 i hi).mono hext, ?_⟩
    rw [hv.2, hvs.1, FieldType.descriptor_array]
    rfl
  | case3 t lengths hone hmore =>
    obtain ⟨hne, hd⟩ := FieldType.takes_iff.1 h
    rcases no_level hone hmore with rfl | hflat
    · exact absurd rfl hne
    · simp [hflat, hne] at hd

/-- Where a level that is entered is not one of arrays, nothing is made. -/
theorem newArrays_of_not_takes (h : ¬t.Takes lengths) (w : World) (s : State) :
    newArrays t lengths w s =
      .error (.error (.emulation (.invalidDescriptor (t.componentAt lengths.length).descriptor))) s := by
  fun_induction newArrays t lengths with
  | case1 c n => exact absurd trivial h
  | case2 c n m rest ih =>
    obtain ⟨hn, hrest⟩ := not_or.1 h
    obtain ⟨k, rfl⟩ := Nat.exists_eq_succ_of_ne_zero hn
    rw [Exec.bind_apply, replicateExec, Exec.bind_apply, ih hrest]
    rfl
  | case3 t lengths hone hmore =>
    rcases no_level hone hmore with rfl | hflat
    · rw [List.length_nil, FieldType.componentAt_zero]
      rfl
    · rw [FieldType.componentAt_of_dimensions hflat]
      rfl

end Step

/-- Between the two heaps the arrays of a type with these lengths were made, and nothing else happened. The value is the
outermost of them. -/
structure Heap.Built (h h' : Heap) (v : Value) (t : FieldType) (lengths : List Nat) : Prop where
  /-- What was there is unchanged. -/
  kept : h.Extends h'
  /-- A path that is shorter than the list of lengths leads to a new array, which has the type and the length of its
  level. -/
  arrays : ∀ path, IsPath lengths path → (hlt : path.length < lengths.length) → ∃ id a,
    h'.follow v path = some (.ref id) ∧ h.size ≤ id ∧
      h'.objects[id]? = some ⟨(t.componentAt path.length).descriptor, some (.array a)⟩ ∧
      a.descriptor = (t.componentAt path.length).descriptor ∧ a.size = lengths[path.length]
  /-- Different paths lead to different arrays. -/
  distinct : ∀ p q, IsPath lengths p → p.length < lengths.length → IsPath lengths q → q.length < lengths.length →
    h'.follow v p = h'.follow v q → p = q
  /-- A path of full length leads to an element of the last level, which has the initial value of its type. -/
  elements : ∀ path, IsPath lengths path → path.length = lengths.length →
    h'.follow v path = some (.initial (t.componentAt lengths.length))
  /-- There are no other new objects. -/
  reached : ∀ id, h.size ≤ id → id < h'.size → ∃ path, IsPath lengths path ∧ path.length < lengths.length ∧
    h'.follow v path = some (.ref id)

namespace Heap

variable {h h' : Heap} {b id : Nat} {t : FieldType} {lengths path : List Nat} {v : Value}

theorem Laid.follow_ref (hl : h.Laid b t lengths) (ht : t.IsValue) (hp : IsPath lengths path)
    (hlt : path.length < lengths.length) :
    h.follow (root b t lengths) path = some (.ref (b + place lengths path)) := by
  obtain ⟨b', hfollow, -, hplace⟩ := hl.follow ht hp
  have hne : lengths.drop path.length ≠ [] := fun hnil =>
    Nat.not_le_of_lt hlt (List.drop_eq_nil_iff.1 hnil)
  rw [hfollow, root, if_neg hne, hplace]

/-- The array at a path is the level that stands there. -/
theorem Laid.exists_level (hl : h.Laid b t lengths) (ht : t.IsValue) (hp : IsPath lengths path)
    (hlt : path.length < lengths.length) : ∃ a : ArrayObject,
    h.objects[b + place lengths path]? = some ⟨(t.componentAt path.length).descriptor, some (.array a)⟩ ∧
      a.descriptor = (t.componentAt path.length).descriptor ∧ a.size = lengths[path.length] := by
  obtain ⟨b', -, hlaid, hplace⟩ := hl.follow ht hp
  rw [List.drop_eq_getElem_cons hlt] at hlaid hplace
  obtain ⟨c, hc, -, hobject⟩ := hlaid
  refine ⟨_, hplace ▸ hobject, ?_, size_level ..⟩
  rw [hc]
  exact descriptor_level ..

theorem Laid.built (hl : h'.Laid h.size t lengths) (ht : t.IsValue) (hext : h.Extends h')
    (hsize : h'.size = h.size + count lengths) : h.Built h' (root h.size t lengths) t lengths where
  kept := hext
  arrays path hp hlt := by
    obtain ⟨a, ha⟩ := hl.exists_level ht hp hlt
    exact ⟨_, a, hl.follow_ref ht hp hlt, Nat.le_add_right _ _, ha⟩
  distinct p q hp hpl hq hql heq := by
    rw [hl.follow_ref ht hp hpl, hl.follow_ref ht hq hql] at heq
    have hplace : h.size + place lengths p = h.size + place lengths q := by simpa using heq
    exact eq_of_place_eq hp hpl hq hql (Nat.add_left_cancel hplace)
  elements path hp hlen := by
    obtain ⟨b', hfollow, -, -⟩ := hl.follow ht hp
    rw [hfollow, hlen, List.drop_length, root, if_pos rfl]
  reached id hle hlt := by
    obtain ⟨path, hp, hpl, hplace⟩ := exists_path (show id - h.size < count lengths by omega)
    refine ⟨path, hp, hpl, ?_⟩
    rw [hl.follow_ref ht hp hpl, hplace, Nat.add_sub_cancel' hle]

end Heap

namespace Step

/-- With room for the arrays in the heap, they are built exactly as asked for, unless there are no lengths, or more than
the type has dimensions and none of those that belong to a dimension is zero. Then nothing is made, and the fault names
the type that is no array type. -/
theorem newArrays_builds (c : FieldType) (hc : (FieldType.array c).IsValue) (lengths : List Nat) (w : World) (s : State)
    (hroom : s.heap.HasRoom (count lengths)) :
    (lengths ≠ [] ∧
        (lengths.length ≤ (FieldType.array c).dimensions ∨ 0 ∈ lengths.take (FieldType.array c).dimensions) →
      ∃ v heap, newArrays (.array c) lengths w s = .ok v { s with heap } ∧
        s.heap.Built heap v (.array c) lengths) ∧
    (¬(lengths ≠ [] ∧
        (lengths.length ≤ (FieldType.array c).dimensions ∨ 0 ∈ lengths.take (FieldType.array c).dimensions)) →
      newArrays (.array c) lengths w s = .error (.error (.emulation
        (.invalidDescriptor ((FieldType.array c).componentAt lengths.length).descriptor))) s) := by
  rw [← FieldType.takes_iff]
  refine ⟨fun htakes => ?_, fun htakes => newArrays_of_not_takes htakes w s⟩
  obtain ⟨v, heap, hrun, hext, hsize, rfl, hlaid⟩ := adds_newArrays htakes w s hroom
  exact ⟨_, heap, hrun, hlaid.built hc hext hsize⟩

theorem newArrays_builds_longs :
    (∃ v heap, newArrays (.array (.array .long)) [2, 3] ⟨.empty, .standard, none, [], .still 0⟩ (.start .standard) =
        .ok v { State.start .standard with heap } ∧
      (State.start .standard).heap.Built heap v (.array (.array .long)) [2, 3]) ∧
    newArrays (.array (.array .long)) [2, 3, 4] ⟨.empty, .standard, none, [], .still 0⟩ (.start .standard) =
      .error (.error (.emulation (.invalidDescriptor FieldType.long.descriptor))) (.start .standard) := by
  constructor
  · exact (newArrays_builds (.array .long) trivial [2, 3] _ _ (by decide)).1 ⟨nofun, .inl (by decide)⟩
  · exact (newArrays_builds (.array .long) trivial [2, 3, 4] _ _ (by decide)).2 (by decide)

/-- Two lengths for an array of one dimension are accepted where the first is zero. What comes of it has the class
`int[]` and holds references. -/
theorem newArrays_unentered :
    ¬[0, 5].length ≤ (FieldType.array .int).dimensions ∧
      (State.start .standard).heap.HasRoom (count [0, 5]) ∧
      ∃ heap, newArrays (.array .int) [0, 5] ⟨.empty, .standard, none, [], .still 0⟩ (.start .standard) =
          .ok (.ref 0) { State.start .standard with heap } ∧
        heap.objects = #[⟨"[I", some (.array (.reference "I" #[]))⟩] := by
  refine ⟨by decide, by decide, _, rfl, ?_⟩
  decide +kernel

end Step

end Jvm
