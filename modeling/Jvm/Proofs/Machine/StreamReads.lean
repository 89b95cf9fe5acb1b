import Jvm.Proofs.Archive.Layout
import Jvm.Proofs.Machine.ReadInto

/-!
# Reading streams

`streams_read_in_order`: what calls deliver that read from one stream, one after the other, is the bytes of the stream
from the position before them to the position behind them, whether they ask for one byte or for a part of an array to
be filled, and whether or not some of them fail.

A source is copied before bytes are read from it, and the entry of an archive is taken out of its stream. Both are
actions that read from a stream in a state of their own and put it back (`Through`), so that `readInto_outcome` is used
once. What such a call does is stated in `ReadRequest.Lawful`, and calls one after the other are actions of the machine
that deliver the bytes that follow (`Exec.Advances`).

The bytes are not those that the proof knows of but those that a program gets to see: the byte that is answered, or as
many elements of the array as the answer says (`ReadRequest.shown`).
-/

namespace Jvm

namespace Library

section

variable {c : Call} {w : World} {s t : State} {b start count : Nat} {a : ArrayObject} {d : List UInt8} {p : Nat}

/-! ### A stream that is taken while bytes are read -/

/-- The arguments are read first, and a failure leaves the state as it is. -/
theorem part_apply {β : Type} (c : Call) (f : Value → Int32 → Int32 → Exec β) (w : World) (s : State) :
    ((c.argument 0 : Exec Value) >>= fun buffer => (c.intArgument 1 : Exec Int32) >>= fun o =>
      (c.intArgument 2 : Exec Int32) >>= fun n => f buffer o n) w s =
      match c.part with
      | .ok (buffer, o, n) => f buffer o n w s
      | .error e => .error (.error (.emulation e)) s := by
  rw [Call.part]
  cases c.argument 0 with
  | error => rfl
  | ok =>
    cases c.intArgument 1 with
    | error => rfl
    | ok => cases c.intArgument 2 <;> rfl

/-- The receiver is found, and its contents. -/
theorem this_apply {α β : Type} {view : View α} {id : Nat} {q : Payload} {x : α} {f : Value → α → Exec β}
    (hthis : c.receiver = some (.ref id)) (hid : s.heap.contents? id = some q) (hx : view.read? q = some x) :
    ((c.this : Exec Value) >>= fun this => Exec.narrow view this >>= fun x => f this x) w s = f (.ref id) x w s := by
  rw [Exec.bind_apply, Call.this_eq hthis, Exec.ofExcept_apply]
  dsimp only
  rw [Exec.bind_apply, Exec.narrow, Exec.readHeap_apply, Heap.narrow_eq_ok.2 ⟨id, q, rfl, hid, hx⟩]

theorem modifyThis_apply {α : Type} {view : View α} {id : Nat} {q : Payload} {x : α} {f : α → α}
    (hthis : c.receiver = some (.ref id)) (hid : s.heap.contents? id = some q) (hx : view.read? q = some x) :
    c.modifyThis view f w s = .ok () { s with heap := s.heap.setPayload id (view.make (f x)) } := by
  rw [Call.modifyThis, Exec.bind_apply, Call.this_eq hthis, Exec.ofExcept_apply]
  exact Exec.modify_apply hid hx f w

/-- An action reads into the part of an array that a call names, from a stream that it puts back afterwards. Meanwhile
the state is `s₁`. -/
structure Through (x : Exec Value) (c : Call) (put : ByteSource → Payload) (id : Nat) (src : ByteSource) (w : World)
    (s s₁ : State) : Prop where
  same : s.SameBut [id] s₁
  noArray : ∀ a, s.heap.contents? id ≠ some (.array a)
  taken : ∃ q, s₁.heap.contents? id = some q ∧ ∀ a, q ≠ .array a
  refused : ∀ f, c.part = .error f → x w s = .error (.error (.emulation f)) s₁
  failed : ∀ buffer o n e t, c.part = .ok (buffer, o, n) → readInto (some src) buffer o n w s₁ = .error e t →
    x w s = .error e t
  read : ∀ buffer o n left r t, c.part = .ok (buffer, o, n) →
    readInto (some src) buffer o n w s₁ = .ok (some left, r) t → t.heap.contents? id = s₁.heap.contents? id →
    x w s = .ok (.int r) { t with heap := t.heap.setPayload id (put left) }

theorem through_readSource {id : Nat} {src : ByteSource} (w : World) (hthis : c.receiver = some (.ref id))
    (hid : s.heap.contents? id = some (.source src)) : Through (readSource c) c .source id src w s s := by
  refine ⟨.refl _ s, fun a => hid ▸ nofun, ⟨_, hid, nofun⟩, fun f hpart => ?_,
    fun buffer o n e t hpart hread => ?_, fun buffer o n left r t hpart hread hsame => ?_⟩
  all_goals rw [readSource, this_apply hthis hid rfl, part_apply, hpart]
  · dsimp only
    rw [Exec.bind_apply, hread]
  · dsimp only
    rw [Exec.bind_apply, hread]
    dsimp only
    rw [Exec.bind_apply, Exec.modify_apply (hsame.trans hid) rfl]
    rfl

theorem through_readArchive {id : Nat} {reader : ZipReader} {src : ByteSource} (w : World)
    (hthis : c.receiver = some (.ref id))
    (hid : s.heap.contents? id = some (.zipStream { reader, entry := some src })) :
    Through (readArchive c) c (fun left => .zipStream { reader, entry := some left }) id src w s
      { s with heap := s.heap.setPayload id (.zipStream { reader, entry := none }) } := by
  have htake : Exec.modify View.zipStream (.ref id) ({ · with entry := none }) w s =
      .ok () { s with heap := s.heap.setPayload id (.zipStream { reader, entry := none }) } :=
    (Exec.modify_apply hid rfl _ w).trans rfl
  have hemptied := Heap.contents?_setPayload_self hid (.zipStream { reader, entry := none })
  refine ⟨.setPayload (by simp) s _, fun a => hid ▸ nofun, ⟨_, hemptied, nofun⟩, fun f hpart => ?_,
    fun buffer o n e t hpart hread => ?_, fun buffer o n left r t hpart hread hsame => ?_⟩
  all_goals
    rw [readArchive, this_apply hthis hid rfl, Exec.bind_apply, htake]
    dsimp only
    rw [part_apply, hpart]
  · dsimp only
    rw [Exec.bind_apply, hread]
  · dsimp only
    rw [Exec.bind_apply, hread]
    dsimp only
    rw [Exec.bind_apply, Exec.modify_apply (hsame.trans hemptied) rfl]
    rfl

namespace Through

variable {x : Exec Value} {put : ByteSource → Payload} {id : Nat} {src : ByteSource} {s₁ : State}

theorem ne_of_names (h : Through x c put id src w s s₁) {s' : State} (hs : s' = s ∨ s' = s₁)
    (hb : s'.heap.contents? b = some (.array a)) : b ≠ id := by
  rintro rfl
  obtain rfl | rfl := hs
  · exact h.noArray a hb
  · obtain ⟨q, hq, hnoArray⟩ := h.taken
    exact hnoArray a (Option.some.inj (hq.symm.trans hb))

theorem names_iff (h : Through x c put id src w s s₁) :
    c.Names s₁ b a start count ↔ c.Names s b a start count := by
  constructor
  all_goals
    intro ⟨hpart, harray, hinside⟩
    refine ⟨hpart, ?_, hinside⟩
  · exact (h.same.contents b (by simpa using h.ne_of_names (.inr rfl) harray)).symm.trans harray
  · exact (h.same.contents b (by simpa using h.ne_of_names (.inl rfl) harray)).trans harray

/-- Either nothing is changed but the stream, or the call fills the part. -/
theorem outcome (h : Through x c put id ⟨d, p⟩ w s s₁) :
    ((∃ e, x w s = .error e s₁) ∧
      ∀ b a start count, c.Names s b a start count → p < d.length ∧ ∀ es, a ≠ .byte es) ∨
    ∃ k v t, x w s = .ok v t ∧ Fills c id d p k s v t ∧ t.heap.contents? id = some (put ⟨d, p + k⟩) := by
  cases hpart : c.part with
  | error f =>
    refine .inl ⟨⟨_, h.refused f hpart⟩, fun b a start count hnames => ?_⟩
    obtain ⟨o, n, hpart', -⟩ := hnames.part
    cases hpart.symm.trans hpart'
  | ok part =>
    obtain ⟨buffer, o, n⟩ := part
    obtain ⟨⟨e, hread⟩, hrefused⟩ | ⟨b, a, a', start, count, k, t, hnames, hk, hread, hsame, hcontents, hfilled⟩ :=
      readInto_outcome (s := s₁) (d := d) (p := p) w hpart
    · exact .inl ⟨⟨e, h.failed _ _ _ _ _ hpart hread⟩, fun b a start count hnames =>
        hrefused b a start count (h.names_iff.2 hnames)⟩
    · -- the array is not the stream, which is still there to be put back
      have hne : b ≠ id := h.ne_of_names (.inr rfl) hnames.array
      obtain ⟨q, hq, -⟩ := h.taken
      have hstream : t.heap.contents? id = s₁.heap.contents? id := hsame.contents id (by simpa using hne.symm)
      refine .inr ⟨k, _, _, h.read _ _ _ _ _ _ hpart hread hstream, ⟨b, a, a', start, count, h.names_iff.1 hnames, hk,
        rfl, ?_, ?_, hfilled⟩, Heap.contents?_setPayload_self (hstream.trans hq) _⟩
      · exact ((h.same.mono (by simp)).trans (hsame.mono (by simp))).trans (.setPayload (by simp) t _)
      · exact (Heap.contents?_setPayload ..).trans ((if_neg fun hb => hne hb.1).trans hcontents)

theorem answered (h : Through x c put id ⟨d, p⟩ w s s₁) {es : Array Int8}
    (hnames : c.Names s b (.byte es) start count) : ∃ v t, x w s = .ok v t := by
  obtain ⟨-, hrefused⟩ | ⟨k, v, t, hx, -⟩ := h.outcome
  · exact absurd rfl ((hrefused b _ start count hnames).2 es)
  · exact ⟨v, t, hx⟩

theorem taken_of_ok (h : Through x c put id ⟨d, p⟩ w s s₁) {v : Value} (hx : x w s = .ok v t) :
    ∃ k, Fills c id d p k s v t ∧ t.heap.contents? id = some (put ⟨d, p + k⟩) := by
  obtain ⟨⟨e, herror⟩, -⟩ | ⟨k, v', t', hx', hfills, hstream⟩ := h.outcome
  · cases hx.symm.trans herror
  · cases hx.symm.trans hx'
    exact ⟨k, hfills, hstream⟩

theorem eq_of_error (h : Through x c put id ⟨d, p⟩ w s s₁) {e : Stop} (hx : x w s = .error e t) : t = s₁ := by
  obtain ⟨⟨e', herror⟩, -⟩ | ⟨k, v, t', hx', -⟩ := h.outcome
  · cases hx.symm.trans herror
    rfl
  · cases hx.symm.trans hx'

theorem ended (h : Through x c put id ⟨d, p⟩ w s s₁) : (∃ t, x w s = .ok (.int (-1)) t) ↔
    (∃ b a start count, c.Names s b a start count ∧ 0 < count) ∧ d.length ≤ p := by
  constructor
  · rintro ⟨t, hx⟩
    obtain ⟨k, ⟨b, a, a', start, count, hnames, hk, hanswer, -⟩, -⟩ := h.taken_of_ok hx
    have hlt := hnames.count_lt
    obtain ⟨hcount, hnone⟩ := (answer_eq_neg_one (by omega)).1 (Value.int.inj hanswer).symm
    exact ⟨⟨b, a, start, count, hnames, by omega⟩, by omega⟩
  · rintro ⟨⟨b, a, start, count, hnames, hcount⟩, hend⟩
    obtain ⟨-, hrefused⟩ | ⟨k, v, t, hx, ⟨b', a', a'', start', count', hnames', hk, hanswer, -⟩, -⟩ := h.outcome
    · have := (hrefused b a start count hnames).1
      omega
    · obtain ⟨-, rfl⟩ := hnames'.unique hnames
      have hlt := hnames.count_lt
      rw [(answer_eq_neg_one (by omega)).2 ⟨by omega, by omega⟩] at hanswer
      exact ⟨t, hanswer ▸ hx⟩

end Through

end

/-! ### One byte -/

/-- What a call answers that asks for one byte. -/
def nextByte (d : List UInt8) (p : Nat) : Int32 :=
  match d[p]? with
  | some b => Int32.ofNat b.toNat
  | none => -1

theorem nextByte_of_lt {d : List UInt8} {p : Nat} (hp : p < d.length) : nextByte d p = Int32.ofNat d[p].toNat := by
  rw [nextByte, List.getElem?_eq_getElem hp]

theorem nextByte_of_le {d : List UInt8} {p : Nat} (hp : d.length ≤ p) : nextByte d p = -1 := by
  rw [nextByte, List.getElem?_eq_none hp]

theorem nextByte_eq_neg_one {d : List UInt8} {p : Nat} : nextByte d p = -1 ↔ d.length ≤ p := by
  refine ⟨fun h => Nat.le_of_not_lt fun hp => ?_, nextByte_of_le⟩
  have hbyte : (d[p].toNat : Int) = -1 := by
    rw [← Int32.toInt_ofNat_of_lt (by have := d[p].toNat_lt; omega), ← nextByte_of_lt hp, h]
    rfl
  omega

theorem toUInt8_nextByte {d : List UInt8} {p : Nat} (hp : p < d.length) :
    (nextByte d p).toUInt32.toUInt8 = d[p] := by
  rw [nextByte_of_lt hp]
  exact UInt8.toNat_inj.1 (by simp)

theorem readByte_apply {c : Call} {s : State} {id : Nat} {d : List UInt8} {p : Nat} (w : World)
    (hthis : c.receiver = some (.ref id)) (hid : s.heap.contents? id = some (.source ⟨d, p⟩)) :
    readByte c w s = .ok (.int (nextByte d p))
      (if p < d.length then { s with heap := s.heap.setPayload id (.source ⟨d, p + 1⟩) } else s) := by
  rw [readByte, Call.narrowThis, bind_assoc, this_apply hthis hid rfl]
  by_cases hp : p < d.length
  · have hread : ByteSource.read ⟨d, p⟩ 1 = some ([d[p]], ⟨d, p + 1⟩) := by
      rw [ByteSource.read, ByteSource.rest, List.drop_eq_getElem_cons hp, if_neg (List.cons_ne_nil _ _)]
      rfl
    simp only [hread, if_pos hp]
    rw [Exec.bind_apply, modifyThis_apply hthis hid rfl, nextByte_of_lt hp]
    rfl
  · have hread : ByteSource.read ⟨d, p⟩ 1 = none := by
      simp [ByteSource.read, ByteSource.rest, Nat.not_lt.1 hp]
    rw [if_neg hp, nextByte_of_le (Nat.le_of_not_lt hp), hread]
    rfl

/-! ### The entries of an archive -/

section

variable {c : Call} {s t : State} {id : Nat} {stream : ZipStream} {entry : ZipEntry} {reader : ZipReader}

theorem nextEntry_apply (w : World) (hthis : c.receiver = some (.ref id))
    (hid : s.heap.contents? id = some (.zipStream stream)) (hnext : stream.reader.next = .ok (some entry, reader)) :
    nextEntry c w s =
      Exec.allocate (.zipEntry ⟨entry.name, if entry.extra.isEmpty then none else some entry.extra⟩) w
        { s with heap := s.heap.setPayload id (.zipStream { reader, entry := some ⟨entry.bytes, 0⟩ }) } := by
  rw [nextEntry, Call.narrowThis, bind_assoc, this_apply hthis hid rfl]
  simp only [hnext]
  rw [Exec.bind_apply, modifyThis_apply hthis hid rfl]
  rfl

/-- An entry is read from its first byte on. -/
theorem nextEntry_opens {w : World} {v : Value} (hthis : c.receiver = some (.ref id))
    (hid : s.heap.contents? id = some (.zipStream stream)) (hnext : stream.reader.next = .ok (some entry, reader))
    (h : nextEntry c w s = .ok v t) :
    t.heap.contents? id = some (.zipStream { reader, entry := some ⟨entry.bytes, 0⟩ }) := by
  rw [nextEntry_apply w hthis hid hnext] at h
  have hopened := Heap.contents?_setPayload_self hid (.zipStream { reader, entry := some ⟨entry.bytes, 0⟩ })
  obtain ⟨o, ho, hpayload⟩ := Option.bind_eq_some_iff.1 hopened
  -- the object that describes the entry is a new one
  exact Option.bind_eq_some_iff.2 ⟨o, ((Exec.Spares.allocate _).of_ok h).objects id o ho, hpayload⟩

end

end Library

/-! ### Calls that read -/

/-- A call that reads from a stream. -/
inductive ReadRequest where
  /-- One byte of a source. -/
  | byte (c : Call)
  /-- Bytes of a source, for a part of an array. -/
  | range (c : Call)
  /-- Bytes of the open entry of an archive, for a part of an array. -/
  | entry (c : Call)

namespace ReadRequest

open Library

def run : ReadRequest → Exec Value
  | byte c => readByte c
  | range c => readSource c
  | entry c => readArchive c

/-- The call is one of a source. -/
def OfSource (id : Nat) : ReadRequest → Prop
  | byte c | range c => c.receiver = some (.ref id)
  | entry _ => False

/-- The bytes that a call has delivered, read off what it has answered and the array that it names. -/
def shown (q : ReadRequest) (v : Value) (t : State) : List UInt8 :=
  match q, v with
  | byte _, .int n => if n = -1 then [] else [n.toUInt32.toUInt8]
  | byte _, _ => []
  | range c, v | entry c, v => delivered c v t

/-- At least one byte is asked for, and where they are to be put into a part of an array, it lies inside of the
array. -/
def Asks (s : State) : ReadRequest → Prop
  | byte _ => True
  | range c | entry c => ∃ b a offset count, c.Names s b a offset count ∧ 0 < count

/-- If bytes are to be put into a part of an array, it lies inside of an array of bytes. -/
def Fits (s : State) : ReadRequest → Prop
  | byte _ => True
  | range c | entry c => ∃ b es offset count, c.Names s b (.byte es) offset count

/-- The next `k` bytes from the position `p` on have been taken. -/
def Takes (id : Nat) (d : List UInt8) (p k : Nat) (s : State) (v : Value) (t : State) : ReadRequest → Prop
  | byte _ => k = min 1 (d.length - p) ∧ v = .int (nextByte d p) ∧ s.SameBut [id] t
  | range c | entry c => Fills c id d p k s v t

/-- What a call does that reads from a stream at a position, which is the contents of an object. -/
structure Lawful (q : ReadRequest) (put : ByteSource → Payload) (id : Nat) (d : List UInt8) (p : Nat) (w : World)
    (s : State) : Prop where
  answered : q.Fits s → ∃ v t, q.run w s = .ok v t
  ended : (∃ t, q.run w s = .ok (.int (-1)) t) ↔ q.Asks s ∧ d.length ≤ p
  taken : ∀ v t, q.run w s = .ok v t → ∃ k, q.Takes id d p k s v t ∧ t.heap.contents? id = some (put ⟨d, p + k⟩) ∧
    q.shown v t = (d.drop p).take k

variable {q : ReadRequest} {put : ByteSource → Payload} {id : Nat} {d : List UInt8} {p : Nat} {w : World} {s t : State}
  {c : Call}

theorem lawful_of_through {s₁ : State} (hq : q = range c ∨ q = entry c)
    (h : Through q.run c put id ⟨d, p⟩ w s s₁) : q.Lawful put id d p w s := by
  obtain rfl | rfl := hq
  all_goals
    refine ⟨fun ⟨b, es, start, count, hnames⟩ => h.answered hnames, h.ended, fun v t hx => ?_⟩
    obtain ⟨k, hfills, hstream⟩ := h.taken_of_ok hx
    exact ⟨k, hfills, hstream, hfills.delivered⟩

theorem lawful_byte (hthis : c.receiver = some (.ref id)) (hid : s.heap.contents? id = some (.source ⟨d, p⟩)) :
    (byte c).Lawful .source id d p w s := by
  have hx := readByte_apply w hthis hid
  refine ⟨fun _ => ⟨_, _, hx⟩, ⟨?_, fun h => ⟨_, nextByte_of_le h.2 ▸ hx⟩⟩, fun v t hok => ?_⟩
  · rintro ⟨t, hok⟩
    have hanswer := hx.symm.trans hok
    injection hanswer with hanswer
    exact ⟨trivial, nextByte_eq_neg_one.1 (Value.int.inj hanswer)⟩
  · cases hx.symm.trans hok
    by_cases hp : p < d.length
    · have hk : min 1 (d.length - p) = 1 := by omega
      rw [if_pos hp]
      refine ⟨1, ⟨hk.symm, rfl, .setPayload (by simp) s _⟩, Heap.contents?_setPayload_self hid _, ?_⟩
      rw [shown, if_neg (by rw [nextByte_eq_neg_one]; omega), toUInt8_nextByte hp, List.drop_eq_getElem_cons hp]
      rfl
    · rw [if_neg hp]
      refine ⟨0, ⟨by omega, rfl, .refl _ s⟩, hid, ?_⟩
      rw [shown, if_pos (nextByte_of_le (by omega))]
      rfl

theorem Takes.le {k : Nat} {v : Value} (h : q.Takes id d p k s v t) : k ≤ d.length - p := by
  cases q with
  | byte c => exact h.1 ▸ Nat.min_le_right ..
  | range c => exact Fills.le h
  | entry c => exact Fills.le h

theorem lawful_of_source (hq : q.OfSource id) (hid : s.heap.contents? id = some (.source ⟨d, p⟩)) :
    q.Lawful .source id d p w s := by
  cases q with
  | byte c => exact lawful_byte hq hid
  | range c => exact lawful_of_through (.inl rfl) (through_readSource w hq hid)
  | entry c => exact hq.elim

theorem lawful_entry {reader : ZipReader} (hthis : c.receiver = some (.ref id))
    (hid : s.heap.contents? id = some (.zipStream { reader, entry := some ⟨d, p⟩ })) :
    (entry c).Lawful (fun src => .zipStream { reader, entry := some src }) id d p w s :=
  lawful_of_through (.inr rfl) (through_readArchive w hthis hid)

theorem eq_of_error (hq : q.OfSource id) (hid : s.heap.contents? id = some (.source ⟨d, p⟩)) {e : Stop}
    (hx : q.run w s = .error e t) : t = s := by
  cases q with
  | byte c => cases (readByte_apply w hq hid).symm.trans hx
  | range c => exact (through_readSource w hq hid).eq_of_error hx
  | entry c => exact hq.elim

/-! ### One call after the other -/

/-- The bytes that a call delivers. -/
def deliver (q : ReadRequest) : Exec (List UInt8) := do
  let v ← q.run
  return q.shown v (← get)

/-- The bytes that a call delivers; if it fails, there are none. -/
def attempt (q : ReadRequest) : Exec (List UInt8) := tryCatch q.deliver fun _ => return []

theorem deliver_apply (q : ReadRequest) (w : World) (s : State) : q.deliver w s = match q.run w s with
    | .ok v t => .ok (q.shown v t) t
    | .error e t => .error e t := by
  rw [deliver, Exec.bind_apply]
  cases q.run w s <;> rfl

theorem attempt_apply (q : ReadRequest) (w : World) (s : State) : q.attempt w s = match q.run w s with
    | .ok v t => .ok (q.shown v t) t
    | .error _ t => .ok [] t := by
  have hattempt : q.attempt w s = match q.deliver w s with
      | .ok bs t => .ok bs t
      | .error _ t => .ok [] t := by
    change EStateM.tryCatch (q.deliver w) (fun _ => (pure [] : Exec (List UInt8)) w) s = _
    rw [EStateM.tryCatch]
    cases q.deliver w s <;> rfl
  rw [hattempt, deliver_apply]
  cases q.run w s <;> rfl

end ReadRequest

/-- An action delivers the bytes that follow in a stream. -/
def Exec.Advances (put : ByteSource → Payload) (id : Nat) (d : List UInt8) (w : World) (x : Exec (List UInt8)) : Prop :=
  ∀ s p bs t, s.heap.contents? id = some (put ⟨d, p⟩) → x w s = .ok bs t →
    t.heap.contents? id = some (put ⟨d, p + bs.length⟩) ∧ bs <+: d.drop p

namespace Exec.Advances

variable {put : ByteSource → Payload} {id : Nat} {d : List UInt8} {w : World} {s t : State} {p : Nat}

theorem mapM {γ : Type} {f : γ → Exec (List UInt8)} {cs : List γ} (hf : ∀ c ∈ cs, Advances put id d w (f c))
    {chunks : List (List UInt8)} (hid : s.heap.contents? id = some (put ⟨d, p⟩)) (h : cs.mapM f w s = .ok chunks t) :
    t.heap.contents? id = some (put ⟨d, p + chunks.flatten.length⟩) ∧ chunks.flatten <+: d.drop p := by
  induction cs generalizing s p chunks with
  | nil =>
    cases h
    exact ⟨hid, List.nil_prefix⟩
  | cons c cs ih =>
    rw [List.mapM_cons] at h
    obtain ⟨bs, u, hc, h⟩ := bind_ok h
    obtain ⟨rest, v, hrest, h⟩ := bind_ok h
    cases h
    obtain ⟨hu, tail, htail⟩ := hf c (by simp) s p bs u hid hc
    obtain ⟨hv, hrest⟩ := ih (fun c' hc' => hf c' (by simp [hc'])) hu hrest
    rw [List.flatten_cons, List.length_append, ← Nat.add_assoc]
    refine ⟨hv, ?_⟩
    rw [← List.drop_drop, ← htail, List.drop_left] at hrest
    rw [← htail]
    exact (List.prefix_append_right_inj bs).2 hrest

end Exec.Advances

namespace ReadRequest

open Exec (Advances)

variable {q : ReadRequest} {put : ByteSource → Payload} {id : Nat} {d : List UInt8} {p : Nat} {w : World} {s t : State}

theorem shown_of_lawful (h : q.Lawful put id d p w s) {v : Value} (hx : q.run w s = .ok v t) :
    t.heap.contents? id = some (put ⟨d, p + (q.shown v t).length⟩) ∧ q.shown v t <+: d.drop p := by
  obtain ⟨k, htakes, hstream, hshown⟩ := h.taken v t hx
  have hk : ((d.drop p).take k).length = k := by
    rw [List.length_take, List.length_drop, Nat.min_eq_left htakes.le]
  rw [hshown, hk]
  exact ⟨hstream, List.take_prefix ..⟩

theorem advances_attempt (hq : q.OfSource id) : Advances .source id d w q.attempt := by
  intro s p bs t hid hx
  rw [attempt_apply] at hx
  cases hrun : q.run w s with
  | ok v u =>
    rw [hrun] at hx
    cases hx
    exact shown_of_lawful (lawful_of_source hq hid) hrun
  | error e u =>
    rw [hrun] at hx
    cases hx
    rw [eq_of_error hq hid hrun]
    exact ⟨hid, List.nil_prefix⟩

theorem advances_entry {c : Call} (hthis : c.receiver = some (.ref id)) (reader : ZipReader) :
    Advances (fun src => .zipStream { reader, entry := some src }) id d w (entry c).deliver := by
  intro s p bs t hid hx
  rw [deliver_apply] at hx
  cases hrun : (entry c).run w s with
  | ok v u =>
    rw [hrun] at hx
    cases hx
    exact shown_of_lawful (lawful_entry hthis hid) hrun
  | error e u =>
    rw [hrun] at hx
    cases hx

/-- Calls that may fail come to their end. -/
theorem exists_attempts (qs : List ReadRequest) (w : World) (s : State) :
    ∃ chunks t, qs.mapM attempt w s = .ok chunks t := by
  induction qs generalizing s with
  | nil => exact ⟨[], s, rfl⟩
  | cons q qs ih =>
    obtain ⟨bs, u, hq⟩ : ∃ bs u, q.attempt w s = .ok bs u := by
      rw [attempt_apply]
      cases q.run w s with
      | ok v u => exact ⟨_, u, rfl⟩
      | error e u => exact ⟨_, u, rfl⟩
    obtain ⟨chunks, t, hqs⟩ := ih u
    rw [List.mapM_cons, Exec.bind_apply, hq]
    dsimp only
    rw [Exec.bind_apply, hqs]
    exact ⟨_, t, rfl⟩

end ReadRequest

open ReadRequest in
/-- Streams lose and repeat nothing. A call that reads from a source, or from the open entry of an archive, takes the
bytes that follow, as `ReadRequest.Lawful` has it, and a call of a source that fails changes nothing. So what calls
deliver one after the other, joined together, are the bytes between the position before and the position behind; calls
of a source may fail meanwhile. The reader of the archive, and with it the next entry, is not concerned, and an entry
is read from its first byte on. -/
theorem streams_read_in_order (w : World) (id : Nat) (d : List UInt8) (p : Nat) (s : State) :
    (s.heap.contents? id = some (.source ⟨d, p⟩) →
      (∀ q : ReadRequest, q.OfSource id →
        q.Lawful .source id d p w s ∧ ∀ e t, q.run w s = .error e t → t = s) ∧
      ∀ qs : List ReadRequest, (∀ q ∈ qs, q.OfSource id) → ∃ chunks t, qs.mapM attempt w s = .ok chunks t ∧
        t.heap.contents? id = some (.source ⟨d, p + chunks.flatten.length⟩) ∧
        chunks.flatten = (d.drop p).take chunks.flatten.length) ∧
    (∀ reader : ZipReader, s.heap.contents? id = some (.zipStream { reader, entry := some ⟨d, p⟩ }) →
      (∀ c : Call, c.receiver = some (.ref id) →
        (entry c).Lawful (fun src => .zipStream { reader, entry := some src }) id d p w s) ∧
      ∀ (cs : List Call) (chunks : List (List UInt8)) (t : State), (∀ c ∈ cs, c.receiver = some (.ref id)) →
        cs.mapM (fun c => (entry c).deliver) w s = .ok chunks t →
        t.heap.contents? id = some (.zipStream { reader, entry := some ⟨d, p + chunks.flatten.length⟩ }) ∧
        chunks.flatten = (d.drop p).take chunks.flatten.length) ∧
    ∀ (c : Call) (stream : ZipStream) (entry : ZipEntry) (reader : ZipReader) (v : Value) (t : State),
      c.receiver = some (.ref id) → s.heap.contents? id = some (.zipStream stream) →
      stream.reader.next = .ok (some entry, reader) → Library.nextEntry c w s = .ok v t →
      t.heap.contents? id = some (.zipStream { reader, entry := some ⟨entry.bytes, 0⟩ }) := by
  refine ⟨fun hid => ⟨fun q hq => ⟨lawful_of_source hq hid, fun e t => eq_of_error hq hid⟩, fun qs hqs => ?_⟩,
    fun reader hid => ⟨fun c hthis => lawful_entry hthis hid, fun cs chunks t hcs h => ?_⟩,
    fun c stream entry reader v t => Library.nextEntry_opens⟩
  · obtain ⟨chunks, t, h⟩ := exists_attempts qs w s
    obtain ⟨ht, hchunks⟩ := Exec.Advances.mapM (fun q hq => advances_attempt (hqs q hq)) hid h
    exact ⟨chunks, t, h, ht, List.prefix_iff_eq_take.1 hchunks⟩
  · have hadvances : ∀ c ∈ cs, Exec.Advances (fun src => .zipStream { reader, entry := some src }) id d w
        (entry c).deliver := fun c hc => advances_entry (hcs c hc) reader
    obtain ⟨ht, hchunks⟩ := Exec.Advances.mapM hadvances hid h
    exact ⟨ht, List.prefix_iff_eq_take.1 hchunks⟩

/-- Asks for two bytes, to be put into the array behind the stream. -/
def twoBytes (owner : String) (offset : Int32) : Call :=
  .onObject .virtual ⟨owner, "read", "([BII)I"⟩ (.ref 0) [.ref 1, .int offset, .int 2]

def oneByte : Call := .onObject .virtual ⟨"java/io/InputStream", "read", "()I"⟩ (.ref 0) []

/-- Of four calls the second fails, since the array ends too early, and the last finds the stream at its end. -/
def sourceCalls : List ReadRequest :=
  [.byte oneByte, .range (twoBytes "java/io/InputStream" 3), .range (twoBytes "java/io/InputStream" 1), .byte oneByte]

def openNext : Call :=
  .onObject .virtual ⟨"java/util/zip/ZipInputStream", "getNextEntry", "()Ljava/util/zip/ZipEntry;"⟩ (.ref 0) []

/-- A stored entry of three bytes. -/
def smallEntry : ZipReader.LaidOut where
  name := "e"
  extra := [5]
  contents := [7, 8, 9]
  body := .stored (by decide) none
  flags := 0x800
  flags_iff := rfl
  version := 20
  changed := 0
  checksum := 0
  expanded := 3
  name_lt := by decide
  extra_lt := by decide

/-- An archive of one entry. -/
def smallArchive : List UInt8 := smallEntry.bytes ++ [0x50, 0x4b, 1, 2]

open ReadRequest in
/-- Three bytes are read from a source, and two from the first entry of an archive. -/
theorem streams_read_in_order_three_bytes :
    (∃ t, sourceCalls.mapM attempt ⟨.empty, .standard, none, [], .still 0⟩
        (.ofPayloads [.source ⟨[7, 8, 9], 0⟩, .array (.byte #[0, 0, 0, 0])]) = .ok [[7], [], [8, 9], []] t ∧
      t.heap.contents? 0 = some (.source ⟨[7, 8, 9], 3⟩)) ∧
    ∃ t u, Library.nextEntry openNext ⟨.empty, .standard, none, [], .still 0⟩
        (.ofPayloads [.zipStream ⟨.ofBytes smallArchive, none⟩, .array (.byte #[0, 0, 0, 0])]) = .ok (.ref 2) t ∧
      [twoBytes "java/util/zip/ZipInputStream" 1].mapM (fun c => (entry c).deliver)
        ⟨.empty, .standard, none, [], .still 0⟩ t = .ok [[7, 8]] u ∧
      u.heap.contents? 0 =
        some (.zipStream ⟨{ bytes := smallArchive, position := smallEntry.bytes.length }, some ⟨[7, 8, 9], 2⟩⟩) := by
  constructor
  · have hrun : sourceCalls.mapM attempt ⟨.empty, .standard, none, [], .still 0⟩
        (.ofPayloads [.source ⟨[7, 8, 9], 0⟩, .array (.byte #[0, 0, 0, 0])]) = .ok [[7], [], [8, 9], []]
          (.ofPayloads [.source ⟨[7, 8, 9], 3⟩, .array (.byte #[0, 8, 9, 0])]) := rfl
    obtain ⟨-, hcalls⟩ := (streams_read_in_order ⟨.empty, .standard, none, [], .still 0⟩ 0 [7, 8, 9] 0
      (.ofPayloads [.source ⟨[7, 8, 9], 0⟩, .array (.byte #[0, 0, 0, 0])])).1 rfl
    obtain ⟨chunks, t, h, ht, -⟩ := hcalls sourceCalls
      (by simp [sourceCalls, OfSource, oneByte, twoBytes, Call.onObject])
    cases hrun.symm.trans h
    exact ⟨_, hrun, ht⟩
  · have hnext : (ZipReader.ofBytes smallArchive).next =
        .ok (some smallEntry.entry, { bytes := smallArchive, position := smallEntry.bytes.length }) :=
      ZipReader.next_layout smallEntry [] [0x50, 0x4b, 1, 2]
    -- what follows does not depend on the bytes of the archive
    generalize ZipReader.ofBytes smallArchive = archive at hnext ⊢
    generalize ({ bytes := smallArchive, position := smallEntry.bytes.length } : ZipReader) = reader at hnext ⊢
    have hopened : Library.nextEntry openNext ⟨.empty, .standard, none, [], .still 0⟩
        (.ofPayloads [.zipStream ⟨archive, none⟩, .array (.byte #[0, 0, 0, 0])]) = .ok (.ref 2)
          (.ofPayloads [.zipStream ⟨reader, some ⟨[7, 8, 9], 0⟩⟩, .array (.byte #[0, 0, 0, 0]),
            .zipEntry ⟨"e", some [5]⟩]) :=
      (Library.nextEntry_apply ⟨.empty, .standard, none, [], .still 0⟩ rfl rfl hnext).trans rfl
    have hread : [twoBytes "java/util/zip/ZipInputStream" 1].mapM (fun c => (entry c).deliver)
        ⟨.empty, .standard, none, [], .still 0⟩
        (.ofPayloads [.zipStream ⟨reader, some ⟨[7, 8, 9], 0⟩⟩, .array (.byte #[0, 0, 0, 0]),
          .zipEntry ⟨"e", some [5]⟩]) = .ok [[7, 8]]
          (.ofPayloads [.zipStream ⟨reader, some ⟨[7, 8, 9], 2⟩⟩, .array (.byte #[0, 7, 8, 0]),
            .zipEntry ⟨"e", some [5]⟩]) := rfl
    have hentry := (streams_read_in_order ⟨.empty, .standard, none, [], .still 0⟩ 0 [] 0
      (.ofPayloads [.zipStream ⟨archive, none⟩, .array (.byte #[0, 0, 0, 0])])).2.2 openNext _ _ _ (.ref 2) _ rfl rfl
      hnext hopened
    obtain ⟨-, hcalls⟩ :=
      (streams_read_in_order ⟨.empty, .standard, none, [], .still 0⟩ 0 [7, 8, 9] 0 _).2.1 reader hentry
    have hthis : ∀ c ∈ [twoBytes "java/util/zip/ZipInputStream" 1], c.receiver = some (.ref 0) := by
      simp [twoBytes, Call.onObject]
    exact ⟨_, _, hopened, hread, (hcalls _ _ _ hthis hread).1⟩

end Jvm
