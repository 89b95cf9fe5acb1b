import Jvm.Library.Objects
import Jvm.Proofs.Machine.Sparing

/-!
# Copying between arrays

`arraycopy_copies`: the native method copies just if the arrays have the same kind of elements and the range lies
inside of both, and then the range of the destination holds what the range of the source held before, also where the
two are ranges of one array. All else stays as it was, and a failure changes nothing.

The elements are compared as the values that are loaded (`ArrayObject.get?`), so that one statement speaks of all
kinds of arrays.
-/

namespace Jvm

namespace ArrayObject

/-- So many elements lie inside of both arrays from two positions on. -/
structure InRange (source target : ArrayObject) (start offset length : Int32) : Prop where
  start_nonneg : 0 ≤ start.toInt
  offset_nonneg : 0 ≤ offset.toInt
  length_nonneg : 0 ≤ length.toInt
  start_add_le : start.toInt + length.toInt ≤ source.size
  offset_add_le : offset.toInt + length.toInt ≤ target.size

/-- An array is another one with `count` elements from `offset` on replaced by those of `source` from `start` on. -/
structure Copied (source target copied : ArrayObject) (start offset count : Nat) : Prop where
  kind : copied.kind = target.kind
  descriptor : copied.descriptor = target.descriptor
  size : copied.size = target.size
  elements : ∀ j, copied.get? j =
    if offset ≤ j ∧ j < offset + count then source.get? (start + (j - offset)) else target.get? j

variable {source target copied : ArrayObject} {start offset length : Int32}

theorem getElem?_splice {α : Type} {t s : Array α} {low first count : Nat} (hs : first + count ≤ s.size)
    (ht : low + count ≤ t.size) (j : Nat) : (splice t low s first count)[j]? =
      if low ≤ j ∧ j < low + count then s[first + (j - low)]? else t[j]? := by
  rw [splice, Array.getElem?_mapIdx]
  by_cases hj : low ≤ j ∧ j < low + count
  · have hold : j < t.size := by omega
    have hnew : first + (j - low) < s.size := by omega
    rw [if_pos hj, Array.getElem?_eq_getElem hold, Array.getElem?_eq_getElem hnew, Option.map_some, if_pos hj]
    rfl
  · rw [if_neg hj]
    cases t[j]? with
    | none => rfl
    | some x => rw [Option.map_some, if_neg hj]

theorem size_splice {α : Type} (t s : Array α) (low first count : Nat) : (splice t low s first count).size = t.size :=
  Array.size_mapIdx

/-- What has been copied is found in its place. -/
theorem take_drop_splice {α : Type} {t s : Array α} {low : Nat} (h : low + s.size ≤ t.size) :
    ((splice t low s 0 s.size).toList.drop low).take s.size = s.toList := by
  refine List.ext_getElem? fun i => ?_
  by_cases hi : i < s.size
  · rw [List.getElem?_take_of_lt hi, List.getElem?_drop, Array.getElem?_toList, getElem?_splice (by omega) h,
      if_pos (by omega), Nat.add_sub_cancel_left, Nat.zero_add, Array.getElem?_toList]
  · rw [List.getElem?_eq_none (by simp; omega), List.getElem?_eq_none (by simpa using hi)]

theorem Copied.of_zero (source a : ArrayObject) (start offset : Nat) : source.Copied a a start offset 0 :=
  ⟨rfl, rfl, rfl, fun _ => (if_neg (by omega)).symm⟩

theorem neg_iff (n : Int32) : n < 0 ↔ n.toInt < 0 := Int32.lt_iff_toInt_lt

theorem copyFrom_of_not_inRange (h : ¬ InRange source target start offset length) :
    ∃ f, target.copyFrom offset source start length = .error f := by
  unfold copyFrom
  dsimp only
  simp only [neg_iff]
  split
  · exact ⟨_, rfl⟩
  split
  · exact ⟨_, rfl⟩
  split
  · exact ⟨_, rfl⟩
  split
  · exact ⟨_, rfl⟩
  refine absurd ?_ h
  constructor <;> omega

/-- In range the arrays only have to be of one kind. -/
theorem copyFrom_of_inRange (h : InRange source target start offset length) :
    (source.kind = target.kind → ∃ copied, target.copyFrom offset source start length = .ok copied ∧
      Copied source target copied start.toInt.toNat offset.toInt.toNat length.toInt.toNat) ∧
    (source.kind ≠ target.kind →
      target.copyFrom offset source start length = .error (.arrayElementType target.kind source.kind)) := by
  obtain ⟨hstart, hoffset, hlength, hsource, htarget⟩ := h
  have hs : start.toInt.toNat + length.toInt.toNat ≤ source.size := by omega
  have ht : offset.toInt.toNat + length.toInt.toNat ≤ target.size := by omega
  unfold copyFrom
  dsimp only
  simp only [neg_iff]
  rw [if_neg (by omega), if_neg (by omega), if_neg (by omega), if_neg (by omega)]
  clear hsource htarget
  cases target <;> cases source
  all_goals first
    | exact ⟨fun hkind => absurd hkind (by simp [kind]), fun _ => rfl⟩
    | refine ⟨fun _ => ⟨_, rfl, rfl, rfl, size_splice .., fun j => ?_⟩, fun hkind => absurd rfl hkind⟩
      simp only [get?, getElem?_splice hs ht, apply_ite (Option.map _)]

end ArrayObject

/-! ### States that differ in the contents of a few objects -/

/-- A state is another one but for the contents of some objects. -/
structure State.SameBut (ids : List Nat) (s t : State) : Prop where
  frames : t.frames = s.frames
  statics : t.statics = s.statics
  started : t.started = s.started
  steps : t.steps = s.steps
  limit : t.heap.limit = s.heap.limit
  interned : t.heap.interned = s.heap.interned
  classes : t.heap.objects.map (·.className) = s.heap.objects.map (·.className)
  contents : ∀ n, n ∉ ids → t.heap.contents? n = s.heap.contents? n

namespace State.SameBut

variable {ids : List Nat} {s t u : State}

theorem refl (ids : List Nat) (s : State) : SameBut ids s s := ⟨rfl, rfl, rfl, rfl, rfl, rfl, rfl, fun _ _ => rfl⟩

theorem trans (h : SameBut ids s t) (h' : SameBut ids t u) : SameBut ids s u :=
  ⟨h'.frames.trans h.frames, h'.statics.trans h.statics, h'.started.trans h.started, h'.steps.trans h.steps,
    h'.limit.trans h.limit, h'.interned.trans h.interned, h'.classes.trans h.classes,
    fun n hn => (h'.contents n hn).trans (h.contents n hn)⟩

theorem mono {ids' : List Nat} (h : SameBut ids s t) (hids : ids ⊆ ids') : SameBut ids' s t :=
  { h with contents := fun n hn => h.contents n fun hmem => hn (hids hmem) }

theorem setPayload {id : Nat} (hid : id ∈ ids) (s : State) (p : Payload) :
    SameBut ids s { s with heap := s.heap.setPayload id p } := by
  refine ⟨rfl, rfl, rfl, rfl, rfl, rfl, Array.ext_getElem? fun n => ?_, fun n hn => ?_⟩
  · rw [Array.getElem?_map, Array.getElem?_map, Heap.setPayload, Array.getElem?_modify]
    split
    · rw [Option.map_map]
      rfl
    · rfl
  · exact (Heap.contents?_setPayload ..).trans (if_neg fun h : n = id ∧ n < s.heap.size => hn (h.1 ▸ hid))

end State.SameBut

/-! ### The native method -/

section

variable {w : World} {s t : State}

open Exec in
theorem arraycopy_error {c : Call} {e : Stop} (h : Library.arraycopy c w s = .error e t) : t = s := by
  obtain rfl | ⟨v, -, h⟩ := ofExcept_bind_error h
  · rfl
  obtain rfl | ⟨source, -, h⟩ := narrow_bind_error h
  · rfl
  obtain rfl | ⟨start, -, h⟩ := ofExcept_bind_error h
  · rfl
  obtain rfl | ⟨v', -, h⟩ := ofExcept_bind_error h
  · rfl
  obtain rfl | ⟨offset, -, h⟩ := ofExcept_bind_error h
  · rfl
  obtain rfl | ⟨length, -, h⟩ := ofExcept_bind_error h
  · rfl
  obtain rfl | ⟨target, htarget, h⟩ := narrow_bind_error h
  · rfl
  obtain rfl | ⟨copied, -, h⟩ := ofExcept_bind_error h
  · rfl
  -- the destination has been found to be an array, so that it can be replaced
  obtain ⟨u, hu⟩ := modify_of_narrow htarget (w := w) fun _ => copied
  rw [bind_apply, hu] at h
  cases h

/-- The array is taken from the heap as it is before the call, and replaced by the copy. -/
theorem arraycopy_apply {c : Call} {n id : Nat} {source target : ArrayObject} {start offset length : Int32}
    (harguments : c.arguments = [.ref n, .int start, .ref id, .int offset, .int length])
    (hsource : s.heap.contents? n = some (.array source)) (htarget : s.heap.contents? id = some (.array target)) :
    Library.arraycopy c w s = match target.copyFrom offset source start length with
      | .ok copied => .ok .void { s with heap := s.heap.setPayload id (.array copied) }
      | .error f => .error (.error (.emulation f)) s := by
  have hv : c.argument 0 = .ok (.ref n) := by rw [Call.argument, harguments]; rfl
  have hstart : c.intArgument 1 = .ok start := by rw [Call.intArgument, Call.argument, harguments]; rfl
  have hv' : c.argument 2 = .ok (.ref id) := by rw [Call.argument, harguments]; rfl
  have hoffset : c.intArgument 3 = .ok offset := by rw [Call.intArgument, Call.argument, harguments]; rfl
  have hlength : c.intArgument 4 = .ok length := by rw [Call.intArgument, Call.argument, harguments]; rfl
  have hfrom : s.heap.narrow View.array (.ref n) = .ok source := Heap.narrow_eq_ok.2 ⟨n, _, rfl, hsource, rfl⟩
  have hto : s.heap.narrow View.array (.ref id) = .ok target := Heap.narrow_eq_ok.2 ⟨id, _, rfl, htarget, rfl⟩
  simp only [Library.arraycopy, Exec.bind_apply, Exec.ofExcept_apply, Exec.narrow, Exec.readHeap_apply, hv, hstart, hv',
    hoffset, hlength, hfrom, hto]
  cases target.copyFrom offset source start length with
  | error f => rfl
  | ok copied =>
    dsimp only
    rw [Exec.modify_apply htarget rfl]
    rfl

/-- The call `System.arraycopy` fails without a change, whatever it is given. Between arrays it succeeds just if they
have one kind of elements and the range lies inside of both; then every element of the range of the destination is the
one that the source had before the call, and no other element and no other object is changed. -/
theorem arraycopy_copies (c : Call) (w : World) (s : State) :
    (∀ e t, Library.arraycopy c w s = .error e t → t = s) ∧
    ∀ (n id : Nat) (source target : ArrayObject) (start offset length : Int32),
      c.arguments = [.ref n, .int start, .ref id, .int offset, .int length] →
      s.heap.contents? n = some (.array source) → s.heap.contents? id = some (.array target) →
      ((∃ r t, Library.arraycopy c w s = .ok r t) ↔
        source.kind = target.kind ∧ source.InRange target start offset length) ∧
      ∀ r t, Library.arraycopy c w s = .ok r t → r = .void ∧ s.SameBut [id] t ∧ ∃ copied,
        t.heap.contents? id = some (.array copied) ∧
        source.Copied target copied start.toInt.toNat offset.toInt.toNat length.toInt.toNat := by
  refine ⟨fun e t => arraycopy_error, fun n id source target start offset length harguments hsource htarget => ?_⟩
  rw [arraycopy_apply harguments hsource htarget]
  by_cases hrange : source.InRange target start offset length
  · obtain ⟨hcopied, hrefused⟩ := ArrayObject.copyFrom_of_inRange hrange
    by_cases hkind : source.kind = target.kind
    · obtain ⟨copied, hcopy, hcopied⟩ := hcopied hkind
      rw [hcopy]
      refine ⟨iff_of_true ⟨_, _, rfl⟩ ⟨hkind, hrange⟩, ?_⟩
      rintro r t ⟨⟩
      exact ⟨rfl, .setPayload (by simp) s _, copied, Heap.contents?_setPayload_self htarget _, hcopied⟩
    · rw [hrefused hkind]
      exact ⟨iff_of_false nofun fun h => hkind h.1, nofun⟩
  · obtain ⟨f, hrefused⟩ := ArrayObject.copyFrom_of_not_inRange hrange
    rw [hrefused]
    exact ⟨iff_of_false nofun fun h => hrange h.2, nofun⟩

end

/-- A state with nothing but objects of some contents, numbered from zero. -/
def State.ofPayloads (ps : List Payload) : State :=
  { State.start .standard with
    heap := { Heap.empty 9 with objects := (ps.map fun p => ⟨p.className, some p⟩).toArray } }

def overlappingCopy : Call :=
  .onClass ⟨"java/lang/System", "arraycopy", "(Ljava/lang/Object;ILjava/lang/Object;II)V"⟩
    [.ref 0, .int 0, .ref 0, .int 1, .int 3]

/-- Elements of an array are moved up by one place, and each is read before it is written over. -/
theorem arraycopy_copies_overlapping : ∃ t copied,
    Library.arraycopy overlappingCopy ⟨.empty, .standard, none, [], .still 0⟩
        (.ofPayloads [.array (.int #[1, 2, 3, 4, 5])]) =
      .ok .void t ∧
    t.heap.contents? 0 = some (.array copied) ∧
    (List.range 6).map copied.get? =
      [some (.int 1), some (.int 1), some (.int 2), some (.int 3), some (.int 5), none] := by
  obtain ⟨hsuccess, hresult⟩ := (arraycopy_copies overlappingCopy ⟨.empty, .standard, none, [], .still 0⟩
    (.ofPayloads [.array (.int #[1, 2, 3, 4, 5])])).2 0 0 (.int #[1, 2, 3, 4, 5]) (.int #[1, 2, 3, 4, 5]) 0 1 3
    rfl rfl rfl
  obtain ⟨r, t, hrun⟩ := hsuccess.2 ⟨rfl, by decide, by decide, by decide, by decide, by decide⟩
  obtain ⟨rfl, -, copied, hcontents, hcopied⟩ := hresult r t hrun
  refine ⟨t, copied, hrun, hcontents, ?_⟩
  rw [funext hcopied.elements]
  rfl

end Jvm
