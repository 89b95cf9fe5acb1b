import Mathlib
import Jvm.Archive.Zip
import Jvm.Proofs.Archive.Layout

/-!
# Reading what need not be an archive

`next` reads lists, which give nothing where they end. Here a call is done in place instead (`nextEntry`): it
takes one byte after the other out of the memory, a byte that is not there is a fault, and what it has changed
of the reader stays changed when it stops with an error. `nextEntry_eq`: there is never a fault, and the answers
are those of `next`.

Nothing is assumed of the bytes. The numbers of a header may be anything, so all that is known of an offset is
what the check before a read has found. It is the check of the extra field that the data without a known size
rely on (`Reads.entryAt`): they are taken to begin inside of the bytes.

Of a descriptor only the mark is looked for. So the reader may stand behind the bytes, but by no more than what
follows the mark (`readEntry_bounds`).
-/

namespace Jvm.ZipReader

abbrev Answer := Except ArchiveError (Option ZipEntry)

/-! ### Calls in place -/

/-- An action on a reader. It has no result if it reads a byte that is not there. -/
abbrev Access := ExceptT ArchiveError (StateT ZipReader Option)

namespace Access

def byte (offset : Nat) : Access UInt8 :=
  ExceptT.mk fun r => r.bytes[offset]?.map fun b => (.ok b, r)

/-- The bytes from an offset on, one by one. -/
def fetch : Nat → Nat → Access (List UInt8)
  | _, 0 => return []
  | start, length + 1 => return (← byte start) :: (← fetch (start + 1) length)

/-- Whether there are so many bytes is looked up before they are read. -/
def checked (e : ArchiveError) (start length : Nat) : Access (List UInt8) := do
  if start + length ≤ (← get).bytes.length then fetch start length else throw e

def field (offset size : Nat) : Access Nat :=
  ofLittleEndian <$> checked (.truncatedHeader offset) offset size

def part (start length : Nat) : Access (List UInt8) :=
  checked (.entryTooLong start) start length

/-- All bytes from an offset on. -/
def rest (start : Nat) : Access (List UInt8) := do
  part start ((← get).bytes.length - start)

def marked (mark offset : Nat) : Access Bool := do
  if offset + 4 ≤ (← get).bytes.length then return (← field offset 4) == mark else return false

def inflated (input : List UInt8) : Access (List UInt8 × Nat) :=
  ExceptT.mk (pure (Deflate.inflate input))

def data (method size body : Nat) (hasDescriptor : Bool) (name : String) : Access (List UInt8 × Nat) :=
  if method = 0 then return (← part body size, size)
  else if method = 8 then
    if hasDescriptor && size == 0 then do inflated (← rest body)
    else return ((← inflated (← part body size)).1, size)
  else throw (.unknownMethod method name)

def descriptorLength (hasDescriptor : Bool) (behind : Nat) : Access Nat :=
  if hasDescriptor then return if ← marked descriptorMark behind then 16 else 12
  else return 0

def entryAt (start : Nat) : Access (ZipEntry × Nat) := do
  let flags ← field (start + 6) 2
  let method ← field (start + 8) 2
  let size ← field (start + 18) 4
  let nameLength ← field (start + 26) 2
  let extraLength ← field (start + 28) 2
  let nameStart := start + headerSize
  let name ← part nameStart nameLength
  let extra ← part (nameStart + nameLength) extraLength
  let body := nameStart + nameLength + extraLength
  let hasDescriptor := flags.testBit 3
  let (data, taken) ← data method size body hasDescriptor (String.ofList (Utf8.decode name))
  let descriptor ← descriptorLength hasDescriptor (body + taken)
  return ({ name := String.ofList (Utf8.decode name), extra, bytes := data }, body + taken + descriptor)

end Access

open ZipReader.Access in
/-- A call of `next` in place. -/
def nextEntry : Access (Option ZipEntry) := do
  let r ← get
  if r.finished then return none
  else if ← marked headerMark r.position then
    let (entry, position) ← entryAt r.position
    set { r with position }
    return some entry
  else
    set { r with finished := true }
    return none

/-- `n` calls, which go on after an error. -/
def calls : Nat → StateT ZipReader Option (List Answer)
  | 0 => return []
  | n + 1 => return (← nextEntry.run) :: (← calls n)

/-! ### Where an entry ends -/

theorem exists_of_bind {α β : Type} {x : Except ArchiveError α} {f : α → Except ArchiveError β} {b : β}
    (h : (x >>= f) = .ok b) : ∃ a, x = .ok a ∧ f a = .ok b := by
  cases x with
  | error => cases h
  | ok a => exact ⟨a, rfl, h⟩

variable {bytes : List UInt8}

theorem le_of_slice {start length : Nat} {bs : List UInt8} (h : slice bytes start length = .ok bs) :
    start + length ≤ bytes.length := by
  rw [slice] at h
  split at h
  · assumption
  · cases h

theorem le_of_number? {offset size n : Nat} (h : number? bytes offset size = some n) :
    offset + size ≤ bytes.length := by
  rw [number?] at h
  split at h
  · assumption
  · cases h

theorem le_of_headerField {offset size n : Nat} (h : headerField bytes offset size = .ok n) :
    offset + size ≤ bytes.length := by
  rw [headerField] at h
  split at h
  · exact le_of_number? ‹_›
  · cases h

theorem le_of_readData {method size body taken : Nat} {hasDescriptor : Bool} {name : String} {contents : List UInt8}
    (h : readData bytes method size body hasDescriptor name = .ok (contents, taken)) (hbody : body ≤ bytes.length) :
    body + taken ≤ bytes.length := by
  rw [readData] at h
  split at h
  · obtain ⟨bs, hslice, h⟩ := exists_of_bind h
    obtain ⟨-, rfl⟩ := Prod.mk.inj (Except.ok.inj h)
    exact le_of_slice hslice
  · split at h
    · split at h
      · have htaken := Deflate.taken_le h
        rw [List.length_drop] at htaken
        omega
      · obtain ⟨bs, hslice, h⟩ := exists_of_bind h
        obtain ⟨_, -, h⟩ := exists_of_bind h
        obtain ⟨-, rfl⟩ := Prod.mk.inj (Except.ok.inj h)
        exact le_of_slice hslice
    · cases h

/-- An entry takes up at least its header, which is there. -/
theorem readEntry_bounds {start behind : Nat} {entry : ZipEntry} (h : readEntry bytes start = .ok (entry, behind)) :
    start + headerSize ≤ bytes.length ∧ start + headerSize ≤ behind ∧ behind ≤ bytes.length + 12 := by
  obtain ⟨flags, -, h⟩ := exists_of_bind h
  obtain ⟨method, -, h⟩ := exists_of_bind h
  obtain ⟨size, -, h⟩ := exists_of_bind h
  obtain ⟨nameLength, -, h⟩ := exists_of_bind h
  obtain ⟨extraLength, hheader, h⟩ := exists_of_bind h
  obtain ⟨name, -, h⟩ := exists_of_bind h
  obtain ⟨extra, hextra, h⟩ := exists_of_bind h
  obtain ⟨⟨contents, taken⟩, hdata, h⟩ := exists_of_bind h
  obtain ⟨-, rfl⟩ := Prod.mk.inj (Except.ok.inj h)
  -- the data are inside of the bytes; what should follow them need not be
  have hend := le_of_readData hdata (le_of_slice hextra)
  have hheader := le_of_headerField hheader
  refine ⟨hheader, by omega, ?_⟩
  split
  · split
    · have hmark := le_of_number? ‹_›
      omega
    · omega
  · omega

/-! ### Every byte that is read is there -/

/-- Of a reader over these bytes an action only reads them, and no others. -/
def Reads {α : Type} (bytes : List UInt8) (x : Access α) (a : Except ArchiveError α) : Prop :=
  ∀ r : ZipReader, r.bytes = bytes → x.run.run r = some (a, r)

namespace Reads

variable {α β : Type}

theorem pure (v : α) : Reads bytes (Pure.pure v) (.ok v) := fun _ _ => rfl

theorem throw (e : ArchiveError) : Reads bytes (MonadExcept.throw e : Access α) (.error e) := fun _ _ => rfl

theorem inflated (input : List UInt8) : Reads bytes (Access.inflated input) (Deflate.inflate input) :=
  fun _ _ => rfl

theorem bind {x : Access α} {a : Except ArchiveError α} {f : α → Access β} {g : α → Except ArchiveError β}
    (hx : Reads bytes x a) (hf : ∀ v, a = .ok v → Reads bytes (f v) (g v)) : Reads bytes (x >>= f) (a >>= g) := by
  intro r hr
  rw [ExceptT.run_bind, StateT.run_bind, hx r hr]
  cases a with
  | error e => rfl
  | ok v => exact hf v rfl r hr

theorem bind_ok {x : Access α} {v : α} {f : α → Access β} {b : Except ArchiveError β} (hx : Reads bytes x (.ok v))
    (hf : Reads bytes (f v) b) : Reads bytes (x >>= f) b := by
  intro r hr
  rw [ExceptT.run_bind, StateT.run_bind, hx r hr]
  exact hf r hr

theorem map (f : α → β) {x : Access α} {a : Except ArchiveError α} (hx : Reads bytes x a) :
    Reads bytes (f <$> x) (f <$> a) := by
  intro r hr
  rw [ExceptT.run_map, StateT.run_map, hx r hr]
  cases a <;> rfl

/-- How many bytes there are may be looked up. -/
theorem get_bind {f : ZipReader → Access α} {a : Except ArchiveError α}
    (h : ∀ r : ZipReader, r.bytes = bytes → Reads bytes (f r) a) : Reads bytes (get >>= f) a :=
  fun r hr => h r hr r hr

theorem byte {offset : Nat} (h : offset < bytes.length) : Reads bytes (Access.byte offset) (.ok bytes[offset]) := by
  intro r hr
  change r.bytes[offset]?.map (fun b => (Except.ok b, r)) = _
  rw [hr, List.getElem?_eq_getElem h, Option.map_some]

theorem fetch {start length : Nat} (h : start + length ≤ bytes.length) :
    Reads bytes (Access.fetch start length) (.ok ((bytes.drop start).take length)) := by
  induction length generalizing start with
  | zero => exact pure []
  | succ length ih =>
    have hstart : start < bytes.length := by omega
    have hrest : Reads bytes (Access.fetch (start + 1) length) _ := ih (by omega)
    rw [List.drop_eq_getElem_cons hstart, List.take_succ_cons]
    exact (byte hstart).bind_ok (hrest.bind_ok (pure _))

theorem checked (e : ArchiveError) (start length : Nat) : Reads bytes (Access.checked e start length)
    (if start + length ≤ bytes.length then .ok ((bytes.drop start).take length) else .error e) := by
  refine get_bind fun r hr => ?_
  rw [hr]
  split
  · exact fetch ‹_›
  · exact throw e

theorem part (start length : Nat) : Reads bytes (Access.part start length) (slice bytes start length) :=
  checked (.entryTooLong start) start length

theorem field (offset size : Nat) : Reads bytes (Access.field offset size) (headerField bytes offset size) := by
  have h : Reads bytes (Access.field offset size) _ :=
    (checked (.truncatedHeader offset) offset size).map ofLittleEndian
  rw [headerField, number?]
  split at h
  · rwa [if_pos ‹_›]
  · rwa [if_neg ‹_›]

theorem rest {start : Nat} (h : start ≤ bytes.length) : Reads bytes (Access.rest start) (.ok (bytes.drop start)) := by
  refine get_bind fun r hr => ?_
  have hpart : Reads bytes _ _ := part start (bytes.length - start)
  rw [slice, if_pos (by omega), List.take_of_length_le (by rw [List.length_drop])] at hpart
  rwa [hr]

theorem marked (mark offset : Nat) :
    Reads bytes (Access.marked mark offset) (.ok (decide (number? bytes offset 4 = some mark))) := by
  refine get_bind fun r hr => ?_
  rw [hr]
  have hfield : Reads bytes _ _ := field offset 4
  rw [headerField] at hfield
  rw [number?] at hfield ⊢
  split
  · rw [if_pos ‹_›] at hfield
    refine hfield.bind_ok ?_
    rw [decide_eq_decide.2 Option.some_inj]
    exact pure _
  · exact pure false

theorem data (method size : Nat) {body : Nat} (hbody : body ≤ bytes.length) (hasDescriptor : Bool) (name : String) :
    Reads bytes (Access.data method size body hasDescriptor name)
      (readData bytes method size body hasDescriptor name) := by
  rw [Access.data, readData]
  split
  · exact (part body size).bind fun _ _ => pure _
  · split
    · split
      · exact (rest hbody).bind_ok (inflated _)
      · exact (part body size).bind fun _ _ => (inflated _).bind fun _ _ => pure _
    · exact throw _

theorem descriptorLength (hasDescriptor : Bool) (behind : Nat) :
    Reads bytes (Access.descriptorLength hasDescriptor behind)
      (.ok (if hasDescriptor then if number? bytes behind 4 = some descriptorMark then 16 else 12 else 0)) := by
  rw [Access.descriptorLength]
  split
  · refine (marked descriptorMark behind).bind_ok ?_
    simp only [decide_eq_true_eq]
    exact pure _
  · exact pure 0

theorem entryAt (start : Nat) : Reads bytes (Access.entryAt start) (readEntry bytes start) := by
  refine (field (start + 6) 2).bind fun flags _ => ?_
  refine (field (start + 8) 2).bind fun method _ => ?_
  refine (field (start + 18) 4).bind fun size _ => ?_
  refine (field (start + 26) 2).bind fun nameLength _ => ?_
  refine (field (start + 28) 2).bind fun extraLength _ => ?_
  refine (part (start + headerSize) nameLength).bind fun name _ => ?_
  refine (part (start + headerSize + nameLength) extraLength).bind fun extra hextra => ?_
  refine (data method size (le_of_slice hextra) (flags.testBit 3) _).bind fun contents _ => ?_
  exact (descriptorLength (flags.testBit 3) _).bind_ok (pure _)

end Reads

/-! ### Calls -/

/-- What `next` answers, and the reader behind it. -/
def outcome (r : ZipReader) : Answer × ZipReader :=
  match r.next with
  | .ok (answer, r') => (.ok answer, r')
  | .error e => (.error e, r)

theorem nextEntry_eq (r : ZipReader) : nextEntry.run.run r = some r.outcome := by
  have hmarked := Reads.marked headerMark r.position r rfl
  have hentry := Reads.entryAt r.position r rfl
  change (if r.finished then pure none else _ : Access (Option ZipEntry)).run.run r = _
  rw [outcome, next]
  by_cases hfinished : r.finished
  · rw [if_pos hfinished, if_pos hfinished]
    rfl
  rw [if_neg hfinished, if_neg hfinished, ExceptT.run_bind, StateT.run_bind, hmarked]
  by_cases hmark : number? r.bytes r.position 4 = some headerMark
  · rw [if_neg (not_not_intro hmark), decide_eq_true hmark]
    change (Access.entryAt r.position >>= _).run.run r = _
    rw [ExceptT.run_bind, StateT.run_bind, hentry]
    cases readEntry r.bytes r.position <;> rfl
  · rw [if_pos hmark, decide_eq_false hmark]
    rfl

theorem outcome_cases (r : ZipReader) :
    (∃ entry position, r.outcome = (.ok (some entry), { r with position }) ∧
      number? r.bytes r.position 4 = some headerMark ∧ r.position + headerSize ≤ r.bytes.length ∧
      r.position + headerSize ≤ position ∧ position ≤ r.bytes.length + 12) ∨
    r.outcome = (.ok none, { r with finished := true }) ∨
    ∃ e, r.outcome = (.error e, r) := by
  rw [outcome, next]
  by_cases hfinished : r.finished
  · rw [if_pos hfinished]
    obtain ⟨bytes, position, finished⟩ := r
    obtain rfl : finished = true := hfinished
    exact .inr (.inl rfl)
  rw [if_neg hfinished]
  by_cases hmark : number? r.bytes r.position 4 = some headerMark
  · rw [if_neg (not_not_intro hmark)]
    cases hentry : readEntry r.bytes r.position with
    | ok read => exact .inl ⟨read.1, read.2, rfl, hmark, readEntry_bounds hentry⟩
    | error e => exact .inr (.inr ⟨e, rfl⟩)
  · rw [if_pos hmark]
    exact .inr (.inl rfl)

theorem calls_succ (r : ZipReader) (n : Nat) : (calls (n + 1)).run r =
    ((calls n).run r.outcome.2).map fun p => (r.outcome.1 :: p.1, p.2) := by
  rw [calls, StateT.run_bind, nextEntry_eq, Option.map_eq_bind]
  rfl

/-- A call that leaves the reader as it was is answered in the same way for ever. -/
theorem calls_of_outcome {r : ZipReader} {answer : Answer} (h : r.outcome = (answer, r)) (n : Nat) :
    (calls n).run r = some (List.replicate n answer, r) := by
  induction n with
  | zero => rfl
  | succ n ih => rw [calls_succ, h, ih, Option.map_some, List.replicate_succ]

def isEntry : Answer → Bool
  | .ok (some _) => true
  | _ => false

/-- What holds of a call from `r` on that leaves `r'`, by its answer. -/
def Sound (r r' : ZipReader) : Answer → Prop
  | .ok (some _) => number? r.bytes r.position 4 = some headerMark ∧
      r.position + headerSize ≤ r.bytes.length ∧ r.position + headerSize ≤ r'.position
  | .ok none => ∀ m, (calls m).run r' = some (List.replicate m (.ok none), r')
  | .error e => r' = r ∧ ∀ m, (calls m).run r = some (List.replicate m (.error e), r)

-- A header that ends after its mark is an error every time.
example : (calls 2).run (ofBytes [0x50, 0x4b, 3, 4]) =
    some ([.error (.truncatedHeader 6), .error (.truncatedHeader 6)], ofBytes [0x50, 0x4b, 3, 4]) := by
  rfl

theorem sound_outcome (r : ZipReader) : Sound r r.outcome.2 r.outcome.1 := by
  rcases outcome_cases r with ⟨entry, position, h, hmark, hheader, hmoves, -⟩ | h | ⟨e, h⟩
  · rw [h]
    exact ⟨hmark, hheader, hmoves⟩
  · rw [h]
    exact calls_of_outcome rfl
  · rw [h]
    exact ⟨rfl, calls_of_outcome h⟩

theorem calls_from (r : ZipReader) (hr : r.position ≤ r.bytes.length + 12) (n : Nat) : ∃ answers r',
    (calls n).run r = some (answers, r') ∧ r'.bytes = r.bytes ∧ r'.position ≤ r.bytes.length + 12 ∧
      (answers.countP isEntry = 0 ∨ r.position + headerSize * answers.countP isEntry ≤ r.bytes.length) := by
  induction n generalizing r with
  | zero => exact ⟨[], r, rfl, rfl, hr, .inl rfl⟩
  | succ n ih =>
    rw [calls_succ]
    rcases outcome_cases r with ⟨entry, position, h, -, hheader, hmoves, hend⟩ | h | ⟨e, h⟩
    · obtain ⟨answers, r', hcalls, hbytes, hposition, hcount⟩ := ih { r with position } hend
      refine ⟨.ok (some entry) :: answers, r', by rw [h, hcalls]; rfl, hbytes, hposition, .inr ?_⟩
      rw [List.countP_cons_of_pos rfl]
      -- the headers of all later entries stand behind this one
      rcases hcount with hcount | hcount
      · rw [hcount]
        exact hheader
      · rw [Nat.mul_add]
        dsimp only at hcount
        omega
    · obtain ⟨answers, r', hcalls, hbytes, hposition, hcount⟩ := ih { r with finished := true } hr
      exact ⟨.ok none :: answers, r', by rw [h, hcalls]; rfl, hbytes, hposition, hcount⟩
    · obtain ⟨answers, r', hcalls, hbytes, hposition, hcount⟩ := ih r hr
      exact ⟨.error e :: answers, r', by rw [h, hcalls]; rfl, hbytes, hposition, hcount⟩

/-- Whatever the bytes are, and however often a reader has been called, no call reads a byte that is not there.
There are no more entries than headers would fit into the bytes; and of the call after those, what `Sound` says. -/
theorem calls_sound (bytes : List UInt8) (n : Nat) : ∃ answers r,
    (calls n).run (ofBytes bytes) = some (answers, r) ∧
    r.bytes = bytes ∧ r.position ≤ bytes.length + 12 ∧
    answers.countP isEntry ≤ bytes.length / headerSize ∧
    ∃ answer r', nextEntry.run.run r = some (answer, r') ∧
      r.next = answer.map (fun result => (result, r')) ∧ Sound r r' answer := by
  obtain ⟨answers, r, hcalls, hbytes, hposition, hcount⟩ := calls_from (ofBytes bytes) (Nat.zero_le _) n
  refine ⟨answers, r, hcalls, hbytes, hposition, ?_, r.outcome.1, r.outcome.2, nextEntry_eq r, ?_, sound_outcome r⟩
  · rw [Nat.le_div_iff_mul_le (by decide)]
    change _ ∨ 0 + headerSize * _ ≤ bytes.length at hcount
    rcases hcount with hcount | hcount
    · rw [hcount, Nat.zero_mul]
      exact Nat.zero_le _
    · rwa [Nat.zero_add, Nat.mul_comm] at hcount
  · rw [outcome]
    cases r.next <;> rfl

end Jvm.ZipReader
