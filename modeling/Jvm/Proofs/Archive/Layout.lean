import Mathlib
import Jvm.Archive.Zip
import Jvm.Proofs.Archive.Deflate
import Jvm.Proofs.Text.Utf8

/-!
# Archives as they are written

An archive is laid out as its entries one behind the other, and something else at the end. An entry is a
header, its name in UTF-8, an extra field, the data, and for some a descriptor. `walk_layout`: reading such an
archive gives the entries in order, and then none for ever.

`LaidOut` has no values but those that an archive can hold: the numbers of a header are the lengths of what
follows, and fit into their fields; a size is left out (`Body.streamed`) only with compressed data, which end
by themselves, and with a descriptor; and a descriptor without a mark does not begin like one with it. So
what `readEntry` takes up is exactly the entry (`readEntry_layout`), from which all else follows by induction.
-/

namespace Jvm

/-! ### Numbers -/

/-- A number in `size` bytes, the lowest first. -/
def littleEndian : Nat → Nat → List UInt8
  | 0, _ => []
  | size + 1, n => (n % 256).toUInt8 :: littleEndian size (n / 256)

@[simp] theorem length_littleEndian (size n : Nat) : (littleEndian size n).length = size := by
  induction size generalizing n with
  | zero => rfl
  | succ size ih => rw [littleEndian, List.length_cons, ih]

/-- The number that bytes write, the lowest first. -/
def ofLittleEndian (bs : List UInt8) : Nat := bs.foldr (fun b n => n * 256 + b.toNat) 0

theorem ofLittleEndian_littleEndian {size n : Nat} (h : n < 256 ^ size) :
    ofLittleEndian (littleEndian size n) = n := by
  induction size generalizing n with
  | zero =>
    rw [pow_zero, Nat.lt_one_iff] at h
    rw [h]
    rfl
  | succ size ih =>
    have hrest : n / 256 < 256 ^ size := Nat.div_lt_of_lt_mul (by rwa [pow_succ'] at h)
    have hbyte : (n % 256).toUInt8.toNat = n % 256 := Utf8.toNat_toUInt8 (Nat.mod_lt _ (by decide))
    rw [littleEndian, ofLittleEndian, List.foldr_cons, ← ofLittleEndian, ih hrest, hbyte]
    omega

theorem littleEndian_ofLittleEndian (bs : List UInt8) : littleEndian bs.length (ofLittleEndian bs) = bs := by
  induction bs with
  | nil => rfl
  | cons b bs ih =>
    have hb : b.toNat < 256 := b.toNat_lt
    have hlow : (ofLittleEndian bs * 256 + b.toNat) % 256 = b.toNat := by omega
    have hhigh : (ofLittleEndian bs * 256 + b.toNat) / 256 = ofLittleEndian bs := by omega
    rw [List.length_cons, littleEndian, ofLittleEndian, List.foldr_cons, ← ofLittleEndian, hlow, hhigh, ih,
      Nat.toUInt8_eq, UInt8.ofNat_toNat]

namespace ZipReader

/-! ### Layout -/

/-- Numbers with the bytes that each takes up. -/
abbrev Fields := List (Nat × Nat)

def Fields.bytes (fields : Fields) : List UInt8 := fields.flatMap fun (size, n) => littleEndian size n

def Fields.width (fields : Fields) : Nat := (fields.map Prod.fst).sum

/-- The numbers fit into their bytes. -/
def Fields.Fit (fields : Fields) : Prop := ∀ field ∈ fields, field.2 < 256 ^ field.1

/-- A checksum and two sizes behind the data of an entry. -/
inductive Descriptor where
  | marked (checksum size expanded : UInt32)
  /-- There is no mark in front, and the checksum does not look like one. -/
  | unmarked (checksum size expanded : UInt32) (h : checksum.toNat ≠ descriptorMark)

def Descriptor.fields : Descriptor → Fields
  | marked checksum size expanded =>
    [(4, descriptorMark), (4, checksum.toNat), (4, size.toNat), (4, expanded.toNat)]
  | unmarked checksum size expanded _ => [(4, checksum.toNat), (4, size.toNat), (4, expanded.toNat)]

/-- How the contents of an entry stand in an archive. -/
inductive Body (contents : List UInt8) where
  | stored (h : contents.length < 2 ^ 32) (descriptor? : Option Descriptor)
  | deflated (stream : List UInt8) (hstream : Deflate.IsStream stream contents) (h : stream.length < 2 ^ 32)
    (descriptor? : Option Descriptor)
  /-- The header does not give the size. -/
  | streamed (stream : List UInt8) (hstream : Deflate.IsStream stream contents) (descriptor : Descriptor)

namespace Body

variable {contents : List UInt8}

def method : Body contents → Nat
  | stored .. => 0
  | deflated .. | streamed .. => 8

def data : Body contents → List UInt8
  | stored .. => contents
  | deflated stream .. | streamed stream .. => stream

/-- The size in the header. -/
def size : Body contents → Nat
  | streamed .. => 0
  | body => body.data.length

def descriptor? : Body contents → Option Descriptor
  | stored _ descriptor? | deflated _ _ _ descriptor? => descriptor?
  | streamed _ _ descriptor => some descriptor

/-- The bytes behind the data. -/
def trailer (b : Body contents) : List UInt8 := (b.descriptor?.map fun d => d.fields.bytes).getD []

theorem size_lt (b : Body contents) : b.size < 2 ^ 32 := by
  cases b with
  | stored h => exact h
  | deflated stream hstream h => exact h
  | streamed => exact Nat.two_pow_pos 32

end Body

/-- An entry with all that is written of it. What reading does not look at is arbitrary. -/
structure LaidOut where
  name : String
  extra : List UInt8
  contents : List UInt8
  body : Body contents
  flags : UInt16
  /-- Bit 3 tells of the descriptor. -/
  flags_iff : flags.toNat.testBit 3 = body.descriptor?.isSome
  version : UInt16
  changed : UInt32
  checksum : UInt32
  expanded : UInt32
  name_lt : (Utf8.encode name.toList).length < 2 ^ 16
  extra_lt : extra.length < 2 ^ 16

namespace LaidOut

def nameBytes (e : LaidOut) : List UInt8 := Utf8.encode e.name.toList

def header (e : LaidOut) : Fields :=
  [(4, headerMark), (2, e.version.toNat), (2, e.flags.toNat), (2, e.body.method), (4, e.changed.toNat),
    (4, e.checksum.toNat), (4, e.body.size), (4, e.expanded.toNat), (2, e.nameBytes.length), (2, e.extra.length)]

def bytes (e : LaidOut) : List UInt8 :=
  e.header.bytes ++ (e.nameBytes ++ (e.extra ++ (e.body.data ++ e.body.trailer)))

/-- What is to be read. -/
def entry (e : LaidOut) : ZipEntry := { name := e.name, extra := e.extra, bytes := e.contents }

end LaidOut

/-- The answers of the first `n` calls. -/
def walk : Nat → ZipReader → Except ArchiveError (List (Option ZipEntry))
  | 0, _ => .ok []
  | n + 1, r => do
    let (answer, r) ← r.next
    return answer :: (← walk n r)

/-! ### Reading at a place -/

variable {bs a b c : List UInt8} {start length : Nat}

theorem number?_of_eq {size n : Nat} (h : bs = a ++ (littleEndian size n ++ c)) (hstart : start = a.length)
    (hn : n < 256 ^ size) : number? bs start size = some n := by
  subst h hstart
  have hle : a.length + size ≤ (a ++ (littleEndian size n ++ c)).length := by simp
  rw [number?, if_pos hle, List.drop_left, List.take_left' (length_littleEndian size n), ← ofLittleEndian,
    ofLittleEndian_littleEndian hn]

theorem slice_of_eq (h : bs = a ++ (b ++ c)) (hstart : start = a.length) (hlength : length = b.length) :
    slice bs start length = .ok b := by
  subst h hstart hlength
  rw [slice, if_pos (by simp), List.drop_left, List.take_left]

theorem headerField_eq {size n : Nat} (h : number? bs start size = some n) : headerField bs start size = .ok n := by
  rw [headerField, h]

/-- A number that is read is there. -/
theorem littleEndian_prefix_of_number? {size n : Nat} (h : number? bs start size = some n) :
    littleEndian size n <+: bs.drop start := by
  rw [number?] at h
  split at h
  · rename_i hle
    have hlength : ((bs.drop start).take size).length = size := by
      rw [List.length_take, List.length_drop]
      omega
    have hback := littleEndian_ofLittleEndian ((bs.drop start).take size)
    rw [hlength, ofLittleEndian, Option.some.inj h] at hback
    exact hback ▸ List.take_prefix ..
  · cases h

namespace Fields

theorem length_bytes (fields : Fields) : fields.bytes.length = fields.width := by
  simp [bytes, width, List.length_flatMap]

/-- A field stands behind those before it. -/
theorem number? {fields : Fields} (hfit : fields.Fit) (h : bs = a ++ (fields.bytes ++ c)) (i : Nat)
    (hi : i < fields.length) :
    ZipReader.number? bs (a.length + width (fields.take i)) fields[i].1 = some fields[i].2 := by
  have hsplit : fields.bytes = bytes (fields.take i) ++
      (littleEndian fields[i].1 fields[i].2 ++ bytes (fields.drop (i + 1))) := by
    have hfields : fields.take i ++ fields[i] :: fields.drop (i + 1) = fields := by
      rw [← List.drop_eq_getElem_cons hi, List.take_append_drop]
    conv => lhs; rw [← hfields]
    rw [bytes, List.flatMap_append, List.flatMap_cons]
    rfl
  refine number?_of_eq (a := a ++ bytes (fields.take i)) (c := bytes (fields.drop (i + 1)) ++ c) ?_ ?_
    (hfit _ (List.getElem_mem hi))
  · rw [h, hsplit]
    simp only [List.append_assoc]
  · rw [List.length_append, length_bytes]

end Fields

/-! ### Reading an entry -/

namespace LaidOut

variable (e : LaidOut)

theorem fit_header : e.header.Fit := by
  have := e.body.size_lt
  have := e.name_lt
  have := e.extra_lt
  have hmethod : e.body.method < 256 ^ 2 := by
    cases e.body with
    | stored => exact (by decide : 0 < 256 ^ 2)
    | deflated => exact (by decide : 8 < 256 ^ 2)
    | streamed => exact (by decide : 8 < 256 ^ 2)
  have h16 : ∀ n : UInt16, n.toNat < 256 ^ 2 := fun n => n.toNat_lt
  have h32 : ∀ n : UInt32, n.toNat < 256 ^ 4 := fun n => n.toNat_lt
  simp only [header, Fields.Fit, List.forall_mem_cons]
  exact ⟨by decide, h16 _, h16 _, hmethod, h32 _, h32 _, by omega, h32 _, by rw [nameBytes]; omega, by omega,
    nofun⟩

theorem width_header : e.header.width = headerSize := rfl

end LaidOut

theorem fit_descriptor (d : Descriptor) : d.fields.Fit := by
  have h32 : ∀ n : UInt32, n.toNat < 256 ^ 4 := fun n => n.toNat_lt
  cases d with
  | marked =>
    simp only [Descriptor.fields, Fields.Fit, List.forall_mem_cons]
    exact ⟨by decide, h32 _, h32 _, h32 _, nofun⟩
  | unmarked =>
    simp only [Descriptor.fields, Fields.Fit, List.forall_mem_cons]
    exact ⟨h32 _, h32 _, h32 _, nofun⟩

/-- The data of an entry give its contents and are taken up to their end. -/
theorem readData_eq {contents : List UInt8} (b : Body contents) (name : String)
    (h : bs = a ++ (b.data ++ c)) :
    readData bs b.method b.size a.length b.descriptor?.isSome name = .ok (contents, b.data.length) := by
  cases b with
  | stored _ descriptor? =>
    have hslice : slice bs a.length contents.length = .ok contents := slice_of_eq h rfl rfl
    change (do return (← slice bs a.length contents.length, contents.length)) = _
    rw [hslice]
    rfl
  | deflated stream hstream _ descriptor? =>
    have hslice : slice bs a.length stream.length = .ok stream := slice_of_eq h rfl rfl
    have hsize : (stream.length == 0) = false := by simpa using hstream.ne_nil
    change (if (descriptor?.isSome && stream.length == 0) = true then Deflate.inflate (bs.drop a.length)
      else do return ((← Deflate.inflate (← slice bs a.length stream.length)).1, stream.length)) = _
    rw [hsize, Bool.and_false, if_neg Bool.false_ne_true, hslice]
    change (do return ((← Deflate.inflate stream).1, stream.length)) = _
    rw [show Deflate.inflate stream = _ from hstream]
    rfl
  | streamed stream hstream descriptor =>
    have hdrop : bs.drop a.length = stream ++ c := by rw [h, List.drop_left]; rfl
    change Deflate.inflate (bs.drop a.length) = _
    rw [hdrop, hstream.inflate_append]
    rfl

/-- The mark tells how long a descriptor is. -/
theorem length_trailer {contents : List UInt8} (b : Body contents) (h : bs = a ++ (b.trailer ++ c)) :
    (if b.descriptor?.isSome then if number? bs a.length 4 = some descriptorMark then 16 else 12 else 0) =
      b.trailer.length := by
  rw [Body.trailer] at h ⊢
  generalize b.descriptor? = descriptor? at h ⊢
  cases descriptor? with
  | none => rfl
  | some d =>
    have hlength : d.fields.bytes.length = d.fields.width := d.fields.length_bytes
    cases d with
    | marked checksum size expanded =>
      have hmark : number? bs a.length 4 = some descriptorMark :=
        Fields.number? (fit_descriptor (.marked checksum size expanded)) h 0 (Nat.zero_lt_succ 3)
      rw [Option.isSome_some, if_pos rfl, if_pos hmark]
      exact hlength.symm
    | unmarked checksum size expanded hne =>
      have hchecksum : number? bs a.length 4 = some checksum.toNat :=
        Fields.number? (fit_descriptor (.unmarked checksum size expanded hne)) h 0 (Nat.zero_lt_succ 2)
      rw [Option.isSome_some, if_pos rfl, hchecksum, if_neg (by simpa using hne)]
      exact hlength.symm

theorem LaidOut.length_bytes (e : LaidOut) : e.bytes.length =
    headerSize + (e.nameBytes.length + (e.extra.length + (e.body.data.length + e.body.trailer.length))) := by
  simp only [LaidOut.bytes, List.length_append, Fields.length_bytes, width_header]

/-- An entry is read as it was meant, and all of its bytes are taken up. -/
theorem readEntry_layout (e : LaidOut) (a c : List UInt8) :
    readEntry (a ++ (e.bytes ++ c)) a.length = .ok (e.entry, (a ++ e.bytes).length) := by
  generalize hbytes : a ++ (e.bytes ++ c) = bs
  have hbs : bs = a ++ (e.header.bytes ++ (e.nameBytes ++ (e.extra ++ (e.body.data ++ (e.body.trailer ++ c))))) := by
    simp only [← hbytes, LaidOut.bytes, List.append_assoc]
  have field := fun i (hi : i < 10) => headerField_eq (Fields.number? e.fit_header hbs i hi)
  have hflags : headerField bs (a.length + 6) 2 = .ok e.flags.toNat := field 2 (by decide)
  have hmethod : headerField bs (a.length + 8) 2 = .ok e.body.method := field 3 (by decide)
  have hsize : headerField bs (a.length + 18) 4 = .ok e.body.size := field 6 (by decide)
  have hnameLength : headerField bs (a.length + 26) 2 = .ok e.nameBytes.length := field 8 (by decide)
  have hextraLength : headerField bs (a.length + 28) 2 = .ok e.extra.length := field 9 (by decide)
  have hname : slice bs (a.length + headerSize) e.nameBytes.length = .ok e.nameBytes := by
    refine slice_of_eq (a := a ++ e.header.bytes) (by rw [hbs, List.append_assoc]) ?_ rfl
    rw [List.length_append, Fields.length_bytes, e.width_header]
  have hextra : slice bs (a.length + headerSize + e.nameBytes.length) e.extra.length = .ok e.extra := by
    refine slice_of_eq (a := a ++ e.header.bytes ++ e.nameBytes) (by simp only [hbs, List.append_assoc]; rfl) ?_ rfl
    rw [List.length_append, List.length_append, Fields.length_bytes, e.width_header]
  have hstart : (a ++ e.header.bytes ++ e.nameBytes ++ e.extra).length =
      a.length + headerSize + e.nameBytes.length + e.extra.length := by
    simp only [List.length_append, Fields.length_bytes, e.width_header]
  have hdata : readData bs e.body.method e.body.size (a.length + headerSize + e.nameBytes.length + e.extra.length)
      (e.flags.toNat.testBit 3) e.name = .ok (e.contents, e.body.data.length) := by
    rw [← hstart, e.flags_iff]
    exact readData_eq e.body e.name (by simp only [hbs, List.append_assoc]; rfl)
  have hbehind : (a ++ e.header.bytes ++ e.nameBytes ++ e.extra ++ e.body.data).length =
      a.length + headerSize + e.nameBytes.length + e.extra.length + e.body.data.length := by
    rw [List.length_append, hstart]
  have htrailer : (if e.flags.toNat.testBit 3 then
      if number? bs (a.length + headerSize + e.nameBytes.length + e.extra.length + e.body.data.length) 4 =
        some descriptorMark then 16 else 12
      else 0) = e.body.trailer.length := by
    rw [← hbehind, e.flags_iff]
    exact length_trailer e.body (by simp only [hbs, List.append_assoc]; rfl)
  have hdecoded : String.ofList (Utf8.decode e.nameBytes) = e.name := by
    rw [LaidOut.nameBytes, Utf8.decode_encode, String.ofList_toList]
  simp only [readEntry, hflags, hmethod, hsize, hnameLength, hextraLength, hname, hextra, hdecoded, hdata, htrailer,
    bind, Except.bind]
  rw [List.length_append, e.length_bytes]
  simp only [Nat.add_assoc]
  rfl

/-! ### Reading an archive -/

theorem next_layout (e : LaidOut) (a c : List UInt8) :
    next { bytes := a ++ (e.bytes ++ c), position := a.length } =
      .ok (some e.entry, { bytes := a ++ (e.bytes ++ c), position := (a ++ e.bytes).length }) := by
  have hmark : number? (a ++ (e.bytes ++ c)) a.length 4 = some headerMark :=
    Fields.number? e.fit_header (by simp only [LaidOut.bytes, List.append_assoc]; rfl) 0 (Nat.zero_lt_succ 9)
  rw [next, if_neg Bool.false_ne_true, if_neg (not_not_intro hmark), readEntry_layout]

theorem walk_finished (bytes : List UInt8) (position n : Nat) :
    walk n { bytes, position, finished := true } = .ok (List.replicate n none) := by
  induction n with
  | zero => rfl
  | succ n ih =>
    rw [walk, next, if_pos rfl]
    change (do return none :: (← walk n _)) = _
    rw [ih]
    rfl

/-- Where no header stands, the archive is at its end. -/
theorem walk_tail (a : List UInt8) {tail : List UInt8} (h : ¬ littleEndian 4 headerMark <+: tail) (n : Nat) :
    walk n { bytes := a ++ tail, position := a.length } = .ok (List.replicate n none) := by
  cases n with
  | zero => rfl
  | succ n =>
    have hmark : number? (a ++ tail) a.length 4 ≠ some headerMark := fun hn =>
      h (by simpa using littleEndian_prefix_of_number? hn)
    rw [walk, next, if_neg Bool.false_ne_true, if_pos hmark]
    change (do return none :: (← walk n _)) = _
    rw [walk_finished]
    rfl

theorem walk_from (es : List LaidOut) (a : List UInt8) {tail : List UInt8}
    (h : ¬ littleEndian 4 headerMark <+: tail) (n : Nat) :
    walk n { bytes := a ++ (es.flatMap LaidOut.bytes ++ tail), position := a.length } =
      .ok ((List.range n).map fun i => es[i]?.map LaidOut.entry) := by
  induction es generalizing a n with
  | nil =>
    rw [List.flatMap_nil, List.nil_append, walk_tail a h]
    simp [List.map_const']
  | cons e es ih =>
    cases n with
    | zero => rfl
    | succ n =>
      have hbytes : a ++ ((e :: es).flatMap LaidOut.bytes ++ tail) =
          a ++ (e.bytes ++ (es.flatMap LaidOut.bytes ++ tail)) := by
        rw [List.flatMap_cons, List.append_assoc]
      have hrest := ih (a ++ e.bytes) n
      rw [List.append_assoc] at hrest
      rw [hbytes, walk, next_layout]
      change (do return some e.entry :: (← walk n _)) = _
      rw [hrest, List.range_succ_eq_map, List.map_cons, List.map_map]
      rfl

/-- Reading an archive gives the entries that it is laid out of, and then none, as often as one asks. -/
theorem walk_layout (es : List LaidOut) {tail : List UInt8} (h : ¬ littleEndian 4 headerMark <+: tail) (n : Nat) :
    walk n (ofBytes (es.flatMap LaidOut.bytes ++ tail)) =
      .ok ((List.range n).map fun i => es[i]?.map LaidOut.entry) :=
  walk_from es [] h n

/-- Two letters in one stored block. -/
theorem isStream_stored : Deflate.IsStream [1, 2, 0, 253, 255, 104, 105] [104, 105] := by
  rfl

/-- An entry of each form. -/
def sampleEntries : List LaidOut :=
  let file (name : String) (extra : List UInt8) (contents : List UInt8) (body : Body contents) (flags : UInt16)
      (flags_iff : flags.toNat.testBit 3 = body.descriptor?.isSome)
      (name_lt : (Utf8.encode name.toList).length < 2 ^ 16) (extra_lt : extra.length < 2 ^ 16) : LaidOut :=
    { name, extra, contents, body, flags, flags_iff, name_lt, extra_lt
      version := 20, changed := 0, checksum := 0, expanded := 0 }
  [file "a/é" [7] [1, 2] (.stored (by decide) (some (.marked 5 2 2))) 0x808 rfl (by decide) (by decide),
    file "b" [] _ (.deflated _ isStream_stored (by decide) none) 0 rfl (by decide) (by decide),
    file "c" [] _ (.streamed _ isStream_stored (.unmarked 5 7 2 (by decide))) 8 rfl (by decide) (by decide)]

theorem walk_layout_sample : ¬ littleEndian 4 headerMark <+: [0x50, 0x4b, 1, 2] ∧
    walk 5 (ofBytes (sampleEntries.flatMap LaidOut.bytes ++ [0x50, 0x4b, 1, 2])) =
      .ok [some ⟨"a/é", [7], [1, 2]⟩, some ⟨"b", [], [104, 105]⟩, some ⟨"c", [], [104, 105]⟩, none, none] :=
  ⟨by decide, walk_layout sampleEntries (by decide) 5⟩

end ZipReader

end Jvm
