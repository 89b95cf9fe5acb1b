import Jvm.Library.Streams
import Jvm.Proofs.Machine.ArrayCopy

/-!
# Reading into a part of an array

A call that reads names a part of an array (`Call.Names`). Bytes are put there as if they were copied from an array
of all the bytes of the stream (`ArrayObject.Filled`), so that nothing new has to be said about the elements.
`readInto_outcome` tells the two ways in which this ends: it fails and nothing is changed, or the part is filled as far
as the bytes last.

Whether the array is one of bytes is looked at only when there are bytes to put into it. A part of another array can
therefore be named at the end of a stream.
-/

namespace Jvm

/-! ### The part of an array that a call names -/

namespace Call

/-- An array, where a part of it begins and how long the part is. -/
def part (c : Call) : Except Fault (Value × Int32 × Int32) := do
  let buffer ← c.argument 0
  let offset ← c.intArgument 1
  return (buffer, offset, ← c.intArgument 2)

/-- The part lies inside of the array. -/
structure Names (c : Call) (s : State) (b : Nat) (a : ArrayObject) (offset count : Nat) : Prop where
  part : ∃ o n, c.part = .ok (.ref b, o, n) ∧ o.toInt = offset ∧ n.toInt = count
  array : s.heap.contents? b = some (.array a)
  inside : offset + count ≤ a.size

variable {c : Call} {s : State} {b b' offset offset' count count' : Nat} {a a' : ArrayObject}

/-- A call names one part. -/
theorem Names.unique (h : c.Names s b a offset count) (h' : c.Names s b' a' offset' count') :
    a' = a ∧ count' = count := by
  obtain ⟨o, n, hpart, -, hn⟩ := h.part
  obtain ⟨o', n', hpart', -, hn'⟩ := h'.part
  cases hpart.symm.trans hpart'
  cases h.array.symm.trans h'.array
  exact ⟨rfl, by omega⟩

theorem Names.count_lt (h : c.Names s b a offset count) : count < 0x80000000 := by
  obtain ⟨o, n, -, -, hn⟩ := h.part
  have hbound := Int32.toInt_lt n
  omega

end Call

namespace ArrayObject

variable {d : List UInt8} {es : Array Int8} {p low count : Nat}

/-- The bytes of a part of an array; there are none in an array that holds something else. -/
def bytesAt (a : ArrayObject) (offset count : Nat) : List UInt8 :=
  ((a.bytes.toOption.getD []).drop offset).take count

/-- An array with bytes from a position on written over its elements from an offset on. -/
structure Filled (a a' : ArrayObject) (d : List UInt8) (p offset count : Nat) : Prop where
  copied : (ofBytes d).Copied a a' p offset count
  bytes : a'.bytesAt offset count = (d.drop p).take count

theorem length_chunk_le (d : List UInt8) (p count : Nat) :
    (((d.drop p).take count).map (·.toInt8)).length ≤ count := by
  rw [List.length_map]
  exact List.length_take_le ..

/-- Bytes that are written to an array of bytes are copied. -/
theorem copied_bytes (h : low + count ≤ es.size) :
    let chunk := ((d.drop p).take count).map (·.toInt8)
    (ofBytes d).Copied (.byte es) (.byte (splice es low chunk.toArray 0 chunk.length)) p low chunk.length := by
  intro chunk
  have hchunk : chunk.length ≤ count := length_chunk_le d p count
  refine ⟨rfl, rfl, size_splice .., fun j => ?_⟩
  have hsource : 0 + chunk.length ≤ chunk.toArray.size := by simp
  rw [get?, getElem?_splice hsource (by omega)]
  by_cases hj : low ≤ j ∧ j < low + chunk.length
  · -- inside of the chunk the `take` does not show
    have hread : chunk[0 + (j - low)]? = (d.map (·.toInt8))[p + (j - low)]? := by
      rw [Nat.zero_add, List.getElem?_map, List.getElem?_take_of_lt (by omega), List.getElem?_drop, List.getElem?_map]
    rw [if_pos hj, if_pos hj, List.getElem?_toArray, hread, ofBytes, get?, List.getElem?_toArray]
  · rw [if_neg hj, if_neg hj, get?]

theorem Filled.of_zero (a : ArrayObject) (d : List UInt8) (p offset : Nat) : a.Filled a d p offset 0 :=
  ⟨.of_zero .., rfl⟩

theorem filled_byte (h : low + count ≤ es.size) :
    let chunk := ((d.drop p).take count).map (·.toInt8)
    Filled (.byte es) (.byte (splice es low chunk.toArray 0 chunk.length)) d p low chunk.length := by
  intro chunk
  have hchunk : chunk.length ≤ count := length_chunk_le d p count
  refine ⟨copied_bytes h, ?_⟩
  have hroom : low + chunk.toArray.size ≤ es.size := by rw [List.size_toArray]; omega
  have hpart := take_drop_splice hroom
  rw [List.size_toArray, List.toList_toArray] at hpart
  have hbytes : chunk.map (·.toUInt8) = (d.drop p).take count := by
    rw [List.map_map]
    exact List.map_id _
  rw [bytesAt, bytes, Except.toOption, Option.getD_some, ← List.map_drop, ← List.map_take, hpart, hbytes,
    List.take_eq_take_iff]
  simp [chunk]

end ArrayObject

namespace Library

open ArrayObject

theorem rangeWithin_eq_ok {o n : Int32} {size start count : Nat} :
    rangeWithin o n size = .ok (start, count) ↔ o.toInt = start ∧ n.toInt = count ∧ start + count ≤ size := by
  unfold rangeWithin
  dsimp only
  constructor
  · intro h
    split at h <;> cases h
    omega
  · rintro ⟨ho, hn, hinside⟩
    rw [if_pos (by omega), ho, hn]
    rfl

/-! ### Reading into an array -/

/-- What a call answers that asks for `count` bytes and gets `k`. -/
def answer (count k : Nat) : Int32 := if count ≠ 0 ∧ k = 0 then -1 else Int32.ofNat k

theorem answer_eq_neg_one {count k : Nat} (hk : k < 0x80000000) : answer count k = -1 ↔ count ≠ 0 ∧ k = 0 := by
  unfold answer
  split
  · simpa
  · refine iff_of_false (fun h => ?_) ‹_›
    have hvalue : (k : Int) = -1 := by rw [← Int32.toInt_ofNat_of_lt hk, h]; rfl
    omega

theorem toNat_answer {count k : Nat} (hk : k < 0x80000000) : (answer count k).toInt.toNat = k := by
  unfold answer
  split
  · rename_i h
    rw [h.2]
    rfl
  · rw [Int32.toInt_ofNat_of_lt hk]
    rfl

/-- A call has put as many bytes as there are from a position on, but no more than it asks for, into the part that it
names, and has answered their number. Otherwise only the contents of the object `id` have been changed. -/
def Fills (c : Call) (id : Nat) (d : List UInt8) (p k : Nat) (s : State) (v : Value) (t : State) : Prop :=
  ∃ b a a' offset count, c.Names s b a offset count ∧ k = min count (d.length - p) ∧ v = .int (answer count k) ∧
    s.SameBut [id, b] t ∧ t.heap.contents? b = some (.array a') ∧ a.Filled a' d p offset k

/-- The bytes that a call has delivered, read off what it has answered and the array that it names. -/
def delivered (c : Call) (v : Value) (t : State) : List UInt8 :=
  match v, c.part with
  | .int n, .ok (.ref b, offset, _) =>
    match t.heap.contents? b with
    | some (.array a) => a.bytesAt offset.toInt.toNat n.toInt.toNat
    | _ => []
  | _, _ => []

section

variable {c : Call} {w : World} {s t : State} {buffer : Value} {o n : Int32} {b start count : Nat} {a : ArrayObject}
  {d : List UInt8} {p : Nat}

/-- A part that does not lie inside of an array is refused. -/
theorem readInto_of_not_names (hpart : c.part = .ok (buffer, o, n))
    (h : ∀ b a start count, ¬ c.Names s b a start count) (source : Option ByteSource) :
    ∃ e, readInto source buffer o n w s = .error e s := by
  rw [readInto, Exec.bind_apply, Exec.narrow, Exec.readHeap_apply]
  cases hnarrow : s.heap.narrow View.array buffer with
  | error f => exact ⟨_, rfl⟩
  | ok a =>
    dsimp only
    rw [Exec.bind_apply, Exec.ofExcept_apply]
    cases hrange : rangeWithin o n a.size with
    | error f => exact ⟨_, rfl⟩
    | ok r =>
      obtain ⟨ho, hn, hinside⟩ := rangeWithin_eq_ok.1 hrange
      obtain ⟨b, q, rfl, hb, hq⟩ := Heap.narrow_eq_ok.1 hnarrow
      obtain rfl : q = .array a := by cases q <;> cases hq; rfl
      exact absurd ⟨⟨o, n, hpart, ho, hn⟩, hb, hinside⟩ (h b a r.1 r.2)

theorem readInto_apply (hpart : c.part = .ok (buffer, o, n)) : c.Names s b a start count →
    readInto (some ⟨d, p⟩) buffer o n w s =
      if count = 0 then .ok (some ⟨d, p⟩, 0) s
      else if d.drop p = [] then .ok (some ⟨d, p⟩, -1) s
      else
        match a with
        | .byte es =>
          let chunk := ((d.drop p).take count).map (·.toInt8)
          .ok (some ⟨d, p + chunk.length⟩, Int32.ofNat chunk.length)
            { s with heap := s.heap.setPayload b (.array (.byte (splice es start chunk.toArray 0 chunk.length))) }
        | a => .error (.error (.emulation (.arrayElementType "byte" a.kind))) s := by
  intro h
  obtain ⟨o', n', hpart', ho, hn⟩ := h.part
  cases hpart.symm.trans hpart'
  have hnarrow : s.heap.narrow View.array (.ref b) = .ok a := Heap.narrow_eq_ok.2 ⟨b, _, rfl, h.array, rfl⟩
  simp only [readInto, Exec.bind_apply, Exec.narrow, Exec.readHeap_apply, hnarrow, Exec.ofExcept_apply,
    rangeWithin_eq_ok.2 ⟨ho, hn, h.inside⟩, ByteSource.read, ByteSource.rest]
  split
  · rfl
  · rename_i hcount
    split
    · rfl
    · cases a with
      | byte es =>
        dsimp only
        rw [Exec.bind_apply, Exec.readHeap_apply, hnarrow]
        dsimp only
        rw [Exec.bind_apply, Exec.modify_apply h.array rfl]
        simp [View.array]
      | _ =>
        dsimp only
        rw [Exec.bind_apply, Exec.readHeap_apply, hnarrow]
        rfl

/-- Either nothing is changed, or as many bytes as there are, but no more than the call asks for, stand in the array. -/
theorem readInto_outcome (w : World) (hpart : c.part = .ok (buffer, o, n)) :
    ((∃ e, readInto (some ⟨d, p⟩) buffer o n w s = .error e s) ∧
      ∀ b a start count, c.Names s b a start count → p < d.length ∧ ∀ es, a ≠ .byte es) ∨
    ∃ b a a' start count k t, c.Names s b a start count ∧ k = min count (d.length - p) ∧
      readInto (some ⟨d, p⟩) buffer o n w s = .ok (some ⟨d, p + k⟩, answer count k) t ∧
      s.SameBut [b] t ∧ t.heap.contents? b = some (.array a') ∧ a.Filled a' d p start k := by
  by_cases hnames : ∃ b a start count, c.Names s b a start count
  · obtain ⟨b, a, start, count, hnames⟩ := hnames
    have happly := readInto_apply (d := d) (p := p) (w := w) hpart hnames
    by_cases hnone : count = 0 ∨ d.length ≤ p
    · -- no bytes are taken
      refine .inr ⟨b, a, a, start, count, 0, s, hnames, by omega, ?_, .refl _ _, hnames.array, .of_zero ..⟩
      rw [happly]
      by_cases hcount : count = 0
      · rw [if_pos hcount, hcount]
        rfl
      · rw [if_neg hcount, if_pos (List.drop_eq_nil_of_le (by omega)), answer, if_pos ⟨hcount, rfl⟩]
        rfl
    · rw [if_neg (by omega), if_neg (by rw [List.drop_eq_nil_iff]; omega)] at happly
      cases a with
      | byte es =>
        have hlength : (((d.drop p).take count).map (·.toInt8)).length = min count (d.length - p) := by simp
        have hfilled := filled_byte (d := d) (p := p) hnames.inside
        have hanswer : answer count (min count (d.length - p)) = Int32.ofNat (min count (d.length - p)) :=
          if_neg (by omega)
        dsimp only at happly hfilled
        rw [hlength] at happly hfilled
        exact .inr ⟨b, _, _, start, count, _, _, hnames, rfl, hanswer ▸ happly, .setPayload (by simp) s _,
          Heap.contents?_setPayload_self hnames.array _, hfilled⟩
      | _ =>
        refine .inl ⟨⟨_, happly⟩, fun b' a' start' count' h => ⟨by omega, ?_⟩⟩
        rw [(hnames.unique h).1]
        exact nofun
  · simp only [not_exists] at hnames
    exact .inl ⟨readInto_of_not_names hpart hnames _, fun b a start count h => absurd h (hnames b a start count)⟩

theorem Fills.le {id k : Nat} {v : Value} (h : Fills c id d p k s v t) : k ≤ d.length - p := by
  obtain ⟨b, a, a', start, count, -, hk, -⟩ := h
  omega

theorem Fills.delivered {id k : Nat} {v : Value} (h : Fills c id d p k s v t) :
    Library.delivered c v t = (d.drop p).take k := by
  obtain ⟨b, a, a', start, count, hnames, hk, rfl, -, hcontents, hfilled⟩ := h
  obtain ⟨o, n, hpart, ho, -⟩ := hnames.part
  have hlt := hnames.count_lt
  have hstart : o.toInt.toNat = start := by omega
  have hcount : (answer count k).toInt.toNat = k := toNat_answer (by omega)
  simp only [Library.delivered, hpart, hcontents, hstart, hcount, hfilled.bytes]

end

end Library

end Jvm
