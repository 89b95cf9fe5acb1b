import Jvm.Proofs.Machine.ArrayCopy
import Jvm.Proofs.Machine.NewObjects
import Jvm.Proofs.Text.Reversal

/-!
# Builders as texts

What calls on a builder do, one after the other, is told by a model without a heap (`Draft`): the text that the builder
holds, which is a list of units, and the strings that have been made of it. A call asks for an operation on the list
(`BuilderCall.request?`), and `Draft.respond` says what this operation makes of the draft and what it answers.
`builders_as_texts`: a call comes to just that, or fails and leaves the state as it is, and so do all calls in a row.

The arguments are looked up in the state that the draft stands for (`Draft.state`), in which a call may also be given
the builder itself or a string that an earlier call has made.
-/

namespace Jvm

/-! ### Actions that change nothing when they fail -/

namespace Exec

variable {α β : Type} {x : Exec α} {f : α → Exec β} {w : World} {s : State}

/-- The action ends like this; if there is no such end, it fails and leaves the state as it is. -/
def AmountsTo (x : Exec α) (w : World) (s : State) : Option (α × State) → Prop
  | some (a, t) => x w s = .ok a t
  | none => ∃ e, x w s = .error e s

/-- The action changes nothing and has this result; if there is none, it fails. -/
def Finds (x : Exec α) (w : World) (s : State) (r : Option α) : Prop := x.AmountsTo w s (r.map (·, s))

/-- The result of an action, if it does not fail. -/
def attempt (x : Exec α) : Exec (Option α) := tryCatch (some <$> x) fun _ => return none

theorem finds_ofExcept {r : Except Fault α} {o : Option α} (h : r.toOption = o) (w : World) (s : State) :
    Finds (liftM r : Exec α) w s o := by
  subst h
  cases r with
  | error f => exact ⟨_, rfl⟩
  | ok a => rfl

theorem finds_readHeap {f : Heap → Except Fault α} {o : Option α} (h : (f s.heap).toOption = o) (w : World) :
    Finds (readHeap f) w s o := finds_ofExcept h w s

theorem Finds.bind {r : Option α} {g : α → Option (β × State)} (hx : x.Finds w s r)
    (hf : ∀ a, r = some a → (f a).AmountsTo w s (g a)) : (x >>= f).AmountsTo w s (r.bind g) := by
  cases r with
  | none =>
    obtain ⟨e, he⟩ := hx
    refine ⟨e, ?_⟩
    rw [bind_apply, he]
  | some a =>
    have ha : x w s = .ok a s := hx
    have hg := hf a rfl
    rw [Option.bind_some]
    cases hga : g a with
    | none =>
      rw [hga] at hg
      obtain ⟨e, he⟩ := hg
      exact ⟨e, (bind_of_ok ha).trans he⟩
    | some p =>
      rw [hga] at hg
      change (x >>= f) w s = .ok p.1 p.2
      exact (bind_of_ok ha).trans hg

theorem Finds.bind_some {a : α} {o : Option (β × State)} (hx : x.Finds w s (some a)) (hf : (f a).AmountsTo w s o) :
    (x >>= f).AmountsTo w s o :=
  hx.bind (g := fun _ => o) fun _ hb => Option.some.inj hb ▸ hf

theorem Finds.bind_map {r : Option α} {g : α → β × State} (hx : x.Finds w s r)
    (hf : ∀ a, r = some a → (f a).AmountsTo w s (some (g a))) : (x >>= f).AmountsTo w s (r.map g) := by
  rw [Option.map_eq_bind]
  exact hx.bind hf

theorem Finds.bind_finds {r : Option α} {g : α → Option β} (hx : x.Finds w s r)
    (hf : ∀ a, r = some a → (f a).Finds w s (g a)) : (x >>= f).Finds w s (r.bind g) := by
  rw [Finds, Option.map_bind]
  exact hx.bind hf

theorem attempt_apply {o : Option (α × State)} (hx : x.AmountsTo w s o) :
    attempt x w s = o.elim (.ok none s) fun p => .ok (some p.1) p.2 := by
  change EStateM.tryCatch ((some <$> x) w) (fun _ => (pure none : Exec (Option α)) w) s = _
  rw [map_eq_pure_bind, EStateM.tryCatch, bind_apply]
  cases o with
  | none =>
    obtain ⟨e, he⟩ := hx
    rw [he]
    rfl
  | some p =>
    have hp : x w s = .ok p.1 p.2 := hx
    rw [hp]
    rfl

end Exec

/-! ### What a call asks for -/

/-- An operation on a text. -/
inductive TextRequest where
  | append (suffix : Units)
  /-- Puts a text in front of the unit at an index, or at the end. -/
  | insert (index : Int) (inserted : Units)
  | replace (index : Int) (unit : UInt16)
  | reverse
  | unitAt (index : Int)
  | length
  /-- A string of the text as it is now. -/
  | copy

/-- The methods of builders, but for constructors. -/
inductive BuilderMethod where
  | appendInt
  | appendChar
  | appendString
  | appendObject
  | insertString
  | setCharAt
  | reverse
  | charAt
  | length
  | toString

/-- A call of a method of a builder. -/
structure BuilderCall where
  method : BuilderMethod
  call : Call

namespace BuilderMethod

/-- What answers a call of the method. -/
def stub : BuilderMethod → Call → Exec Value
  | appendInt => Library.appendInt
  | appendChar => Library.appendChar
  | appendString => Library.appendString
  | appendObject => Library.appendObject
  | insertString => Library.insertString
  | setCharAt => Library.setCharAt
  | reverse => Library.reverse
  | charAt => Library.builderCharAt
  | length => Library.builderLength
  | toString => Library.builderText

end BuilderMethod

/-- A text that a string holds; that of `null` is its name. -/
def Heap.text? (h : Heap) : Value → Option Units
  | .null => some (Units.ofString "null")
  | .ref id =>
    match h.contents? id with
    | some (.string text) => some text
    | _ => none
  | _ => none

/-- The text of an object; that of `null` is its name. -/
def Heap.display? (h : Heap) : Value → Option Units
  | .null => some (Units.ofString "null")
  | .ref id => h.objects[id]?.bind fun o => o.payload.map fun p => p.display o.className (.ref id)
  | _ => none

namespace Call

def int? (c : Call) (index : Nat) : Option Int32 :=
  match c.arguments[index]? with
  | some (.int n) => some n
  | _ => none

/-- The unit that an argument of type `char` stands for. -/
def unit? (c : Call) (index : Nat) : Option UInt16 := (c.int? index).map fun n => n.toUInt32.toUInt16

def text? (c : Call) (h : Heap) (index : Nat) : Option Units := c.arguments[index]?.bind h.text?

end Call

namespace BuilderCall

def run (q : BuilderCall) : Exec Value := q.method.stub q.call

/-- The operation that a call asks for, if its arguments are of the right kind. -/
def request? (q : BuilderCall) (h : Heap) : Option TextRequest :=
  match q.method with
  | .appendInt => (q.call.int? 0).map fun n => .append (Units.ofString (toString n.toInt))
  | .appendChar => (q.call.unit? 0).map fun unit => .append [unit]
  | .appendString => (q.call.text? h 0).map .append
  | .appendObject => (q.call.arguments[0]?.bind h.display?).map .append
  | .insertString => (q.call.int? 0).bind fun index => (q.call.text? h 1).map (.insert index.toInt)
  | .setCharAt => (q.call.int? 0).bind fun index => (q.call.unit? 1).map (.replace index.toInt)
  | .reverse => some .reverse
  | .charAt => (q.call.int? 0).map fun index => .unitAt index.toInt
  | .length => some .length
  | .toString => some .copy

end BuilderCall

/-! ### The model -/

/-- The text of a builder and the strings that have been made of it, the earliest first. -/
structure Draft where
  text : Units
  copies : List Units

namespace Draft

/-- The state with the text of the draft in a builder, and with the strings behind the objects that are there. -/
def state (d : Draft) (id : Nat) (s : State) : State :=
  State.append { s with heap := s.heap.setPayload id (.builder d.text.toArray) }
    (d.copies.map fun us => (Payload.string us).object)

/-- The place of an index that must be less than a bound. -/
def place? (index : Int) (bound : Nat) : Option Nat :=
  if 0 ≤ index ∧ index < bound then some index.toNat else none

/-- The answer to a request and the draft behind it, for the builder of a number. There is none where an index is out
of range or there is no room for another string. -/
def respond (id : Nat) (s : State) (d : Draft) : TextRequest → Option (Value × Draft)
  | .append suffix => some (.ref id, { d with text := d.text ++ suffix })
  | .insert index inserted => (place? index (d.text.length + 1)).map fun place =>
    (.ref id, { d with text := d.text.take place ++ inserted ++ d.text.drop place })
  | .replace index unit => (place? index d.text.length).map fun place =>
    (.void, { d with text := d.text.set place unit })
  | .reverse => some (.ref id, { d with text := d.text.pieces.reverse.flatten })
  | .unitAt index => (place? index d.text.length).map fun place =>
    (.int (Int32.ofNat (d.text.getD place 0).toNat), d)
  | .length => some (.ofLength d.text.length, d)
  | .copy =>
    if s.heap.HasRoom (d.copies.length + 1) then
      some (.ref (s.heap.size + d.copies.length), { d with copies := d.copies ++ [d.text] })
    else none

/-- What is found in a state of the draft: a builder with the text, a string for each copy behind the objects that were
there, and all else as it was. -/
structure StandsFor (d : Draft) (id : Nat) (s t : State) : Prop where
  text : t.heap.contents? id = some (.builder d.text.toArray)
  copies : ∀ n us, d.copies[n]? = some us → t.heap.contents? (s.heap.size + n) = some (.string us)
  size : t.heap.size = s.heap.size + d.copies.length
  others : ∀ n o, n ≠ id → s.heap.objects[n]? = some o → t.heap.objects[n]? = some o
  frames : t.frames = s.frames
  statics : t.statics = s.statics
  started : t.started = s.started
  steps : t.steps = s.steps

/-- The answer to a request and the state behind it. -/
def outcome (id : Nat) (s : State) (d : Draft) (r : TextRequest) : Option (Value × State) :=
  (d.respond id s r).map fun p => (p.1, p.2.state id s)

end Draft

/-- What a call makes of a draft, and what it answers. If it fails, the draft stays. -/
def BuilderCall.revise (id : Nat) (s : State) (q : BuilderCall) : StateM Draft (Option Value) := fun d =>
  match (q.request? (d.state id s).heap).bind (d.respond id s) with
  | some (v, d') => (some v, d')
  | none => (none, d)

/-! ### Arguments -/

section

open Exec

variable {w : World} {s : State}

theorem Call.toOption_argument (c : Call) (index : Nat) : (c.argument index).toOption = c.arguments[index]? := by
  rw [Call.argument]
  cases c.arguments[index]? <;> rfl

theorem Call.toOption_intArgument (c : Call) (index : Nat) : (c.intArgument index).toOption = c.int? index := by
  rw [Call.intArgument, Call.argument, Call.int?]
  cases c.arguments[index]? with
  | none => rfl
  | some v => cases v <;> rfl

theorem toOption_unitArgument (c : Call) (index : Nat) :
    (Library.unitArgument c index).toOption = c.unit? index := by
  rw [Library.unitArgument, Call.unit?, ← c.toOption_intArgument]
  cases c.intArgument index <;> rfl

theorem toOption_narrow_string {h : Heap} {v : Value} (hv : v.isNull = false) :
    (h.narrow View.string v).toOption = h.text? v := by
  cases hn : h.narrow View.string v with
  | ok text =>
    obtain ⟨id, rfl, hid⟩ := Heap.narrow_string.1 hn
    simp only [Except.toOption, Heap.text?, hid]
  | error e =>
    cases v with
    | null => cases hv
    | ref id =>
      rw [Heap.text?]
      split
      · rename_i text hid
        cases hn.symm.trans (Heap.narrow_string.2 ⟨id, rfl, hid⟩)
      · rfl
    | _ => rfl

theorem finds_textArgument (c : Call) (index : Nat) (w : World) (s : State) :
    Finds (Library.textArgument c index) w s (c.text? s.heap index) := by
  refine (finds_ofExcept (c.toOption_argument index) w s).bind_finds fun v hv => ?_
  by_cases hnull : v.isNull
  · cases v with
    | null => rfl
    | _ => cases hnull
  · rw [if_neg hnull, Call.stringArgument, Call.argument_eq hv]
    exact finds_readHeap (f := (·.narrow View.string v)) (toOption_narrow_string (by simpa using hnull)) w

theorem finds_display (v : Value) (w : World) (s : State) : Finds (display v) w s (s.heap.display? v) := by
  cases v with
  | null => rfl
  | ref id =>
    have hobject : (s.heap.object (.ref id)).toOption = s.heap.objects[id]? := by
      simp only [Heap.object, Heap.idOf, bind, Except.bind]
      cases s.heap.objects[id]? <;> rfl
    refine (finds_readHeap (f := (·.object (.ref id))) hobject w).bind_finds fun o _ => ?_
    cases o.payload with
    | none => exact ⟨_, rfl⟩
    | some p => rfl
  | _ => exact ⟨_, rfl⟩

end

/-! ### The state of a draft -/

namespace Heap

variable {h : Heap} {id : Nat} {p : Payload}

theorem setPayload_self (hp : h.contents? id = some p) : h.setPayload id p = h := by
  refine congrArg (fun objects => { h with objects }) (Array.ext_getElem? fun n => ?_)
  rw [Array.getElem?_modify]
  split
  · rename_i hn
    subst hn
    obtain ⟨o, ho, hpayload⟩ := Option.bind_eq_some_iff.1 hp
    rw [ho, Option.map_some, ← hpayload]
  · rfl

theorem setPayload_setPayload (h : Heap) (id : Nat) (p q : Payload) :
    (h.setPayload id p).setPayload id q = h.setPayload id q := by
  refine congrArg (fun objects => { h with objects }) (Array.ext_getElem? fun n => ?_)
  simp only [setPayload, Array.getElem?_modify]
  split
  · rw [Option.map_map]
    rfl
  · rfl

/-- An object that is there is not one of those behind. -/
theorem setPayload_append (hid : id < h.size) (os : List HeapObject) (p : Payload) :
    (h.append os).setPayload id p = (h.setPayload id p).append os := by
  refine congrArg (fun objects => { h with objects }) (Array.ext_getElem? fun n => ?_)
  simp only [append, setPayload, Array.getElem?_modify, Array.getElem?_append, Array.size_modify]
  by_cases hn : n < h.objects.size
  · rw [if_pos hn, if_pos hn]
  · rw [if_neg hn, if_neg hn, if_neg]
    rintro rfl
    exact hn hid

end Heap

namespace Draft

variable {d : Draft} {id n : Nat} {s : State} {us : Units}

/-- The draft with which a builder begins. -/
theorem state_start (hid : s.heap.contents? id = some (.builder us.toArray)) : (Draft.mk us []).state id s = s := by
  rw [state, State.append, Heap.setPayload_self hid, List.map_nil, Heap.append_nil]

theorem size_state (d : Draft) (id : Nat) (s : State) :
    (d.state id s).heap.size = s.heap.size + d.copies.length := by
  rw [state, State.append, Heap.size_append, Heap.size_setPayload, List.length_map]

theorem contents?_state (hid : id < s.heap.size) :
    (d.state id s).heap.contents? id = some (.builder d.text.toArray) := by
  refine Heap.contents?_append_of_some ?_
  rw [Heap.contents?_setPayload, if_pos ⟨rfl, hid⟩]

/-- The other objects are as they were. -/
theorem getElem?_state {o : HeapObject} (hn : n ≠ id) (ho : s.heap.objects[n]? = some o) :
    (d.state id s).heap.objects[n]? = some o := by
  refine Heap.getElem?_append_of_some ?_
  rw [Heap.setPayload, Array.getElem?_modify, if_neg hn.symm, ho]

theorem contents?_state_copy (hcopy : d.copies[n]? = some us) :
    (d.state id s).heap.contents? (s.heap.size + n) = some (.string us) := by
  have hobject : (d.copies.map fun us => (Payload.string us).object)[n]? = some (Payload.string us).object := by
    rw [List.getElem?_map, hcopy, Option.map_some]
  rw [← Heap.size_setPayload s.heap id (.builder d.text.toArray)]
  exact Heap.contents?_append_size_add hobject

theorem standsFor_state (hid : id < s.heap.size) (d : Draft) : d.StandsFor id s (d.state id s) :=
  ⟨contents?_state hid, fun _ _ => contents?_state_copy, size_state d id s, fun _ _ => getElem?_state, rfl, rfl, rfl,
    rfl⟩

theorem state_text (hid : id < s.heap.size) (text : Units) :
    { d.state id s with heap := (d.state id s).heap.setPayload id (.builder text.toArray) } =
      { d with text }.state id s := by
  simp only [state, State.append]
  rw [Heap.setPayload_append (by rwa [Heap.size_setPayload]), Heap.setPayload_setPayload]

theorem state_copies (us : Units) :
    (d.state id s).append [(Payload.string us).object] = { d with copies := d.copies ++ [us] }.state id s := by
  rw [state, State.append_append, state, List.map_append]
  rfl

theorem hasRoom_state : (d.state id s).heap.HasRoom 1 ↔ s.heap.HasRoom (d.copies.length + 1) := by
  rw [Heap.HasRoom, size_state, Nat.add_assoc]
  rfl

end Draft

/-! ### Single calls -/

section

open Exec

variable {c : Call} {d : Draft} {id : Nat} {w : World} {s : State}

theorem toOption_mapError {α : Type} (r : Except Fault α) (f : Fault → Fault) :
    (r.mapError f).toOption = r.toOption := by
  cases r <;> rfl

theorem toOption_placeWithin (index : Int32) (n : Nat) :
    (Library.placeWithin index n).toOption = Draft.place? index.toInt n := by
  rw [Library.placeWithin, Draft.place?]
  split <;> rfl

theorem finds_narrowThis (hthis : c.receiver = some (.ref id)) (hid : id < s.heap.size) :
    Finds (c.narrowThis View.builder) w (d.state id s) (some d.text.toArray) := by
  change Finds (liftM c.this >>= fun this => narrow View.builder this) w _ _
  rw [Call.this_eq hthis]
  refine finds_readHeap (f := (·.narrow View.builder (.ref id))) ?_ w
  rw [Heap.narrow_eq_ok.2 ⟨id, _, rfl, Draft.contents?_state hid, rfl⟩]
  rfl

/-- The builder is given another text and returned. -/
theorem editBuilder_amountsTo (hthis : c.receiver = some (.ref id)) (hid : id < s.heap.size)
    {f : Array UInt16 → Array UInt16} {text : Units} (hf : f d.text.toArray = text.toArray) :
    (Library.editBuilder c f).AmountsTo w (d.state id s) (some (.ref id, { d with text }.state id s)) := by
  change Library.editBuilder c f w (d.state id s) = _
  rw [Library.editBuilder_apply hthis (Draft.contents?_state hid), hf, Draft.state_text hid]

namespace BuilderCall

/-- A call on a builder does what it asks for. If its arguments are of another kind or out of range, it fails and
changes nothing. -/
theorem amountsTo_outcome {q : BuilderCall} (hthis : q.call.receiver = some (.ref id)) (hid : id < s.heap.size)
    (d : Draft) (w : World) :
    q.run.AmountsTo w (d.state id s) ((q.request? (d.state id s).heap).bind (d.outcome id s)) := by
  obtain ⟨m, c⟩ := q
  cases m with
  | appendInt =>
    simp only [request?, Option.bind_map]
    exact (finds_ofExcept (c.toOption_intArgument 0) w _).bind fun n _ =>
      editBuilder_amountsTo hthis hid (by simp)
  | appendChar =>
    simp only [request?, Option.bind_map]
    exact (finds_ofExcept (toOption_unitArgument c 0) w _).bind fun unit _ =>
      editBuilder_amountsTo hthis hid (by simp)
  | appendString =>
    simp only [request?, Option.bind_map]
    exact (finds_textArgument c 0 w _).bind fun suffix _ => editBuilder_amountsTo hthis hid (by simp)
  | appendObject =>
    simp only [request?, Option.bind_map]
    rw [Option.bind_assoc]
    refine (finds_ofExcept (c.toOption_argument 0) w _).bind fun v _ => ?_
    exact (finds_display v w _).bind fun suffix _ => editBuilder_amountsTo hthis hid (by simp)
  | insertString =>
    -- the place is checked last, when the arguments and the text have been found
    simp only [request?, Option.bind_assoc, Option.bind_map]
    refine (finds_ofExcept (c.toOption_intArgument 0) w _).bind fun index _ => ?_
    refine (finds_textArgument c 1 w _).bind fun inserted _ => ?_
    refine (finds_narrowThis hthis hid).bind_some ?_
    rw [Function.comp_apply, Draft.outcome, Draft.respond, Option.map_map]
    refine (finds_ofExcept ?_ w _).bind_map fun place _ => ?_
    · exact (toOption_mapError _ _).trans (toOption_placeWithin ..)
    · exact editBuilder_amountsTo hthis hid (by simp [List.take_of_length_le])
  | setCharAt =>
    simp only [request?, Option.bind_assoc, Option.bind_map]
    refine (finds_ofExcept (c.toOption_intArgument 0) w _).bind fun index _ => ?_
    refine (finds_ofExcept (toOption_unitArgument c 1) w _).bind fun unit _ => ?_
    refine (finds_narrowThis hthis hid).bind_some ?_
    rw [Function.comp_apply, Draft.outcome, Draft.respond, Option.map_map]
    refine (finds_ofExcept (toOption_placeWithin index _) w _).bind_map fun place _ => ?_
    have hedit : Library.editBuilder c (·.setIfInBounds place unit) w (d.state id s) = _ :=
      editBuilder_amountsTo hthis hid (List.setIfInBounds_toArray d.text place unit)
    change (Library.editBuilder c (·.setIfInBounds place unit) >>= fun _ => pure Value.void) w (d.state id s) = _
    rw [bind_of_ok hedit, pure_apply]
  | reverse =>
    exact editBuilder_amountsTo hthis hid (by rw [Units.reversed_of_splitsInto (Units.splitsInto_pieces _)])
  | charAt =>
    simp only [request?, Option.bind_map]
    refine (finds_ofExcept (c.toOption_intArgument 0) w _).bind fun index _ => ?_
    refine (finds_narrowThis hthis hid).bind_some ?_
    rw [Function.comp_apply, Draft.outcome, Draft.respond, Option.map_map]
    refine (finds_ofExcept (toOption_placeWithin index _) w _).bind_map fun place _ => ?_
    change EStateM.Result.ok _ _ = _
    simp
  | length => exact (finds_narrowThis hthis hid).bind_some rfl
  | toString =>
    refine (finds_narrowThis hthis hid).bind_some ?_
    change (newString d.text).AmountsTo w (d.state id s) (Option.map _ (if _ then _ else _))
    by_cases hroom : s.heap.HasRoom (d.copies.length + 1)
    · rw [if_pos hroom]
      change newString d.text w (d.state id s) = .ok _ _
      rw [newString, allocate_apply (Draft.hasRoom_state.2 hroom), Draft.state_copies, Draft.size_state]
    · rw [if_neg hroom]
      exact allocate_of_not_hasRoom (mt Draft.hasRoom_state.1 hroom) _ w

theorem attempt_run {q : BuilderCall} (hthis : q.call.receiver = some (.ref id)) (hid : id < s.heap.size) (d : Draft)
    (w : World) : q.run.attempt w (d.state id s) = .ok (q.revise id s d).1 ((q.revise id s d).2.state id s) := by
  rw [attempt_apply (amountsTo_outcome hthis hid d w), revise]
  cases q.request? (d.state id s).heap with
  | none => rfl
  | some r =>
    rw [Option.bind_some, Option.bind_some, Draft.outcome]
    cases d.respond id s r <;> rfl

/-- Strings that have been made stay. -/
theorem copies_revise (q : BuilderCall) (id : Nat) (s : State) (d : Draft) :
    d.copies <+: (q.revise id s d).2.copies := by
  rw [revise]
  cases q.request? (d.state id s).heap with
  | none => exact List.prefix_rfl
  | some r =>
    rw [Option.bind_some]
    cases r with
    | copy =>
      rw [Draft.respond]
      split
      · rename_i hroom
        split at hroom <;> cases hroom
        exact List.prefix_append ..
      · exact List.prefix_rfl
    | append | reverse | length => exact List.prefix_rfl
    | insert index inserted =>
      rw [Draft.respond]
      cases Draft.place? index (d.text.length + 1) <;> exact List.prefix_rfl
    | replace index | unitAt index =>
      rw [Draft.respond]
      cases Draft.place? index d.text.length <;> exact List.prefix_rfl

end BuilderCall

end

/-! ### Calls one after the other -/

namespace BuilderCall

/-- What calls make of a draft one after the other, with their answers. -/
def reviseAll (id : Nat) (s : State) (qs : List BuilderCall) : StateM Draft (List (Option Value)) :=
  qs.mapM (revise id s)

variable {id : Nat} {s : State}

theorem reviseAll_cons (q : BuilderCall) (qs : List BuilderCall) (d : Draft) :
    reviseAll id s (q :: qs) d = ((q.revise id s d).1 :: (reviseAll id s qs (q.revise id s d).2).1,
      (reviseAll id s qs (q.revise id s d).2).2) := by
  rw [reviseAll, List.mapM_cons]
  rfl

theorem copies_reviseAll (qs : List BuilderCall) (d : Draft) : d.copies <+: (reviseAll id s qs d).2.copies := by
  induction qs generalizing d with
  | nil => exact List.prefix_rfl
  | cons q qs ih =>
    rw [reviseAll_cons]
    exact (q.copies_revise id s d).trans (ih _)

/-- Calls that may fail, on the machine and on the draft. -/
theorem mapM_attempt (hid : id < s.heap.size) {qs : List BuilderCall}
    (hqs : ∀ q ∈ qs, q.call.receiver = some (.ref id)) (d : Draft) (w : World) :
    qs.mapM (·.run.attempt) w (d.state id s) = .ok (reviseAll id s qs d).1 ((reviseAll id s qs d).2.state id s) := by
  induction qs generalizing d with
  | nil => rfl
  | cons q qs ih =>
    obtain ⟨hq, hqs⟩ := List.forall_mem_cons.1 hqs
    rw [List.mapM_cons, Exec.bind_of_ok (attempt_run hq hid d w), Exec.bind_of_ok (ih hqs _), Exec.pure_apply,
      reviseAll_cons]

end BuilderCall

open BuilderCall in
/-- The native methods of builders, but for constructors, behave as operations on a list of units. A call does to the
list what it asks for and answers accordingly; where its arguments are of another kind or out of range, or a string has
no room, it fails and leaves the state as it is. Calls in a row, of which some may fail, do to the list one after the
other what they ask for. A string that one of them makes is a new object, whose contents stay, and no other object is
changed. -/
theorem builders_as_texts :
    (∀ n ∈ Library.builderMethods, (∃ m : BuilderMethod, n = native n.owner n.signature m.stub) ∨
      ∃ f ∈ [Library.emptyBuilder, Library.builderOf, Library.builderOfCapacity], n = native n.owner n.signature f) ∧
    ∀ (w : World) (s : State) (id : Nat) (us : Units), s.heap.contents? id = some (.builder us.toArray) →
      (Draft.mk us []).state id s = s ∧
      ∀ d : Draft, d.StandsFor id s (d.state id s) ∧
        (∀ q : BuilderCall, q.call.receiver = some (.ref id) →
          q.run.AmountsTo w (d.state id s) ((q.request? (d.state id s).heap).bind (d.outcome id s))) ∧
        ∀ qs : List BuilderCall, (∀ q ∈ qs, q.call.receiver = some (.ref id)) →
          qs.mapM (·.run.attempt) w (d.state id s) =
            .ok (reviseAll id s qs d).1 ((reviseAll id s qs d).2.state id s) ∧
          d.copies <+: (reviseAll id s qs d).2.copies := by
  constructor
  · simp only [Library.builderMethods, List.forall_mem_cons]
    exact ⟨.inr ⟨_, .head _, rfl⟩, .inr ⟨_, .tail _ (.head _), rfl⟩, .inl ⟨.appendInt, rfl⟩, .inl ⟨.appendChar, rfl⟩,
      .inl ⟨.appendString, rfl⟩, .inl ⟨.appendObject, rfl⟩, .inl ⟨.toString, rfl⟩, .inl ⟨.length, rfl⟩,
      .inl ⟨.charAt, rfl⟩, .inl ⟨.setCharAt, rfl⟩, .inl ⟨.reverse, rfl⟩, .inr ⟨_, .tail _ (.head _), rfl⟩,
      .inr ⟨_, .tail _ (.tail _ (.head _)), rfl⟩, .inr ⟨_, .head _, rfl⟩, .inl ⟨.insertString, rfl⟩,
      .inl ⟨.appendString, rfl⟩, .inl ⟨.appendChar, rfl⟩, .inl ⟨.toString, rfl⟩, nofun⟩
  · intro w s id us hus
    have hid : id < s.heap.size := Heap.lt_size_of_contents? hus
    exact ⟨Draft.state_start hus, fun d => ⟨Draft.standsFor_state hid d, fun q hq => amountsTo_outcome hq hid d w,
      fun qs hqs => ⟨mapM_attempt hid hqs d w, copies_reviseAll qs d⟩⟩⟩

def onBuilder (method : BuilderMethod) (name descriptor : String) (arguments : List Value) : BuilderCall :=
  ⟨method, .onObject .virtual ⟨"java/lang/StringBuilder", name, descriptor⟩ (.ref 0) arguments⟩

/-- A string is made, the builder is appended to itself, a unit is put where there is none, the string is appended, and
all of it is put backwards. -/
def doublingCalls : List BuilderCall :=
  [onBuilder .toString "toString" "()Ljava/lang/String;" [],
    onBuilder .appendObject "append" "(Ljava/lang/Object;)Ljava/lang/StringBuilder;" [.ref 0],
    onBuilder .setCharAt "setCharAt" "(IC)V" [.int 4, .int 0x7a],
    onBuilder .appendString "append" "(Ljava/lang/String;)Ljava/lang/StringBuilder;" [.ref 1],
    onBuilder .reverse "reverse" "()Ljava/lang/StringBuilder;" []]

open BuilderCall in
theorem builders_as_texts_doubled : ∃ t,
    doublingCalls.mapM (·.run.attempt) ⟨.empty, .standard, none, [], .still 0⟩ (.ofPayloads [.builder #[0x61, 0x62]]) =
      .ok [some (.ref 1), some (.ref 0), none, some (.ref 0), some (.ref 0)] t ∧
    t.heap.contents? 0 = some (.builder #[0x62, 0x61, 0x62, 0x61, 0x62, 0x61]) ∧
    t.heap.contents? 1 = some (.string [0x61, 0x62]) := by
  obtain ⟨hstart, hdrafts⟩ := builders_as_texts.2 ⟨.empty, .standard, none, [], .still 0⟩
    (.ofPayloads [.builder #[0x61, 0x62]]) 0 [0x61, 0x62] rfl
  obtain ⟨-, -, hcalls⟩ := hdrafts ⟨[0x61, 0x62], []⟩
  obtain ⟨hrun, -⟩ := hcalls doublingCalls (by simp [doublingCalls, onBuilder, Call.onObject])
  have hdraft : reviseAll 0 (.ofPayloads [.builder #[0x61, 0x62]]) doublingCalls ⟨[0x61, 0x62], []⟩ =
      ([some (.ref 1), some (.ref 0), none, some (.ref 0), some (.ref 0)],
        ⟨[0x62, 0x61, 0x62, 0x61, 0x62, 0x61], [[0x61, 0x62]]⟩) := rfl
  obtain ⟨hstands, -⟩ := hdrafts ⟨[0x62, 0x61, 0x62, 0x61, 0x62, 0x61], [[0x61, 0x62]]⟩
  rw [hstart, hdraft] at hrun
  exact ⟨_, hrun, hstands.text, hstands.copies 0 _ rfl⟩

end Jvm
