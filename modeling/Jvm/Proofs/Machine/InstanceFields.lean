import Jvm.Proofs.Machine.Agreement
import Jvm.Proofs.Machine.FieldAccess
import Jvm.Proofs.Machine.Fuel
import Jvm.Proofs.Machine.Resolution
import Jvm.Proofs.Machine.Throughout

/-!
# Fields of objects

An object keeps what is stored to its fields by their names: a load pushes the value that was stored last under the
name, whatever class and descriptor the store gave, else the initial value of the type (`Chain.session_fields`). So
where equal names mean the same field in all that an object is used with, each of its fields is a cell of its own.
Elsewhere a field of a class shares its cell with one of the superclass (`Chain.field_shadowed`), and so do two fields
of one class that differ in their descriptors.
-/

namespace Jvm

namespace Heap

variable {h h' : Heap}

/-- What has been stored to a field of an object. -/
def field? (h : Heap) (id : Nat) (name : String) : Option Value := (h.fields? id).bind (·.get? name)

theorem KeepsFields.field? (hk : h.KeepsFields h') (id : Nat) (name : String) :
    h'.field? id name = h.field? id name := by
  unfold Heap.field?
  obtain hsame | ⟨hnone, hblank⟩ := hk id
  · rw [hsame]
  · rw [hnone, hblank]
    rfl

/-- A store to a field is read from it, and from no other field and no other object. -/
theorem field?_put {id : Nat} {fields : Fields} (hfields : h.fields? id = some fields) (name : String) (v : Value)
    (id' : Nat) (name' : String) : (h.edit View.record id (·.put name v)).field? id' name' =
      if id' = id ∧ name = name' then some v else h.field? id' name' := by
  unfold field?
  rw [fields?_edit]
  by_cases hid : id' = id
  · subst hid
    rw [if_pos rfl, hfields, Option.map_some, Option.bind_some, Option.bind_some, Fields.get?_put]
    simp only [true_and]
  · rw [if_neg hid, if_neg fun h => hid h.1]

end Heap

/-- The object to a field of which an instruction is applied. -/
def Instruction.fieldHolder? (i : Instruction) (a : Activation) : Option Value :=
  match i.opcode with
  | .getField => a.stack.values.head?
  | .putField => a.stack.values[1]?
  | _ => none

def ClassDictionary.SameField (d : ClassDictionary) (f g : MemberRef) : Prop :=
  ∃ x, d.Resolves (ClassFile.declared? false f) f.owner (some x) ∧
    d.Resolves (ClassFile.declared? false g) g.owner (some x)

theorem ClassDictionary.SameField.name {d : ClassDictionary} {f g : MemberRef} (h : d.SameField f g) :
    f.name = g.name := by
  obtain ⟨⟨owner, x⟩, hf, hg⟩ := h
  obtain ⟨_, -, hx⟩ := hf.picked
  obtain ⟨_, -, hx'⟩ := hg.picked
  exact (ClassFile.declared?_eq_some hx).1.symm.trans (ClassFile.declared?_eq_some hx').1

theorem Value.ne_of_fits {v : Value} {ty : FieldType} (hty : ty.isVoid = false) (hfits : v.fits ty = true) :
    v ≠ .void ∧ v ≠ .top := by
  refine ⟨?_, ?_⟩ <;> rintro rfl
  · cases ty with
    | void => cases hty
    | _ => cases hfits
  · cases ty <;> cases hfits

namespace Step

/-- A value has been pushed, or there was no room for it. -/
inductive Pushes (v : Value) (a : Activation) : Except Stop (Next × Activation) → Prop
  | pushed {stack : OperandStack} (h : stack.values = v :: a.stack.values) :
      Pushes v a (.ok (.advance, { a with stack }))
  | full {e : Stop} (h : a.stack.limit ≤ a.stack.depth) : Pushes v a (.error e)

theorem parse_of_fieldType {descriptor : String} {ty : FieldType} (h : fieldType descriptor = .ok ty) :
    FieldType.parse descriptor = .ok ty := by
  unfold fieldType at h
  split at h <;> cases h
  assumption

/-- What fits the type of a field is pushed, if there is room. -/
theorem pushes_of_fits {descriptor : String} {ty : FieldType} {v : Value} {a : Activation} {w : World} {s t : State}
    {r : Except Stop (Next × Activation)} (hty : fieldType descriptor = .ok ty) (hfits : v.fits ty = true)
    (hx : ((push v >>= fun _ => pure .advance : Step Next) a).outcome w s = (r, t)) : Pushes v a r ∧ t = s := by
  obtain ⟨stack, hstack, hpush⟩ | ⟨hroom, f, hpush, -⟩ := push_advance (a := a) (w := w) (s := s) v
  · cases (Exec.outcome_of_ok hpush).symm.trans hx
    exact ⟨.pushed hstack, rfl⟩
  · cases (Exec.outcome_of_error hpush).symm.trans hx
    refine ⟨.full ?_, rfl⟩
    obtain ⟨hvoid, htop⟩ := Value.ne_of_fits (FieldType.isVoid_of_parse (parse_of_fieldType hty)) hfits
    exact (hroom.resolve_left hvoid).resolve_left htop

end Step

namespace Chain

variable {chain : Chain} {w : World} {id : Nat} {same same' : MemberRef → MemberRef → Prop} {K L : List Moment}
  {s t : State} {i : Instruction} {a : Activation} {r : Except Stop (Next × Activation)} {f : MemberRef}

/-- The moment stores that value to such a field of the object. -/
def Puts (id : Nat) (field : MemberRef → Prop) (m : Moment) (v : Value) : Prop :=
  ∃ i a p f, m.event = .executed i a (.ok p) ∧ i.opcode = .putField ∧ i.fieldHolder? a = some (.ref id) ∧
    i.member? = some f ∧ a.stack.values.head? = some v ∧ field f

/-- How a load from a field of the object ends: after `K`, with a result and a state. -/
inductive LoadsField (id : Nat) (field : MemberRef → Prop) (K : List Moment) (i : Instruction) (f : MemberRef)
    (a : Activation) : Except Stop (Next × Activation) → State → Prop
  /-- The descriptor of the reference is none, or the object has no fields, as before it is constructed. -/
  | refused {K' : List Moment} {e : Stop} {t : State} (hK : K = K' ++ [⟨.begins i a, t⟩])
      (h : (∀ ty, Step.fieldType f.descriptor ≠ .ok ty) ∨ t.heap.fields? id = none) :
      LoadsField id field K i f a (.error e) t
  /-- The value that was stored last to the field is pushed, or the initial value of its type. -/
  | loads {K' : List Moment} {t : State} {ty : FieldType} {stored : Option Value} {stack : OperandStack}
      {r : Except Stop (Next × Activation)} (hK : K = K' ++ [⟨.begins i a, t⟩])
      (hty : Step.fieldType f.descriptor = .ok ty) (hstored : Latest (Puts id field) K stored)
      (hstack : a.stack.values = .ref id :: stack.values) (hlimit : stack.limit = a.stack.limit)
      (hpushes : Step.Pushes (stored.getD (.initial ty)) { a with stack } r) : LoadsField id field K i f a r t

inductive StoresField (id : Nat) (K : List Moment) (i : Instruction) (f : MemberRef) (a : Activation) :
    Except Stop (Next × Activation) → State → Prop
  /-- The value is none that the descriptor of the reference admits, or the object has no fields. -/
  | refused {K' : List Moment} {e : Stop} {t : State} {v : Value} (hK : K = K' ++ [⟨.begins i a, t⟩])
      (hv : a.stack.values.head? = some v)
      (h : ∀ ty, Step.fieldType f.descriptor = .ok ty → v.fits ty = true → t.heap.fields? id = none) :
      StoresField id K i f a (.error e) t
  | stores {K' : List Moment} {s : State} {v : Value} {ty : FieldType} {stack : OperandStack}
      (hK : K = K' ++ [⟨.begins i a, s⟩]) (hty : Step.fieldType f.descriptor = .ok ty) (hfits : v.fits ty = true)
      (hfields : s.heap.fields? id ≠ none) (hstack : a.stack.values = v :: .ref id :: stack.values) :
      StoresField id K i f a (.ok (.advance, { a with stack }))
        { s with heap := s.heap.edit View.record id (·.put f.name v) }

/-- A load from a field of the object and a store to one that have been executed end like this; `same` says which
references are to one field. -/
def FieldLaw (same : MemberRef → MemberRef → Prop) (id : Nat) (K : List Moment) (m : Moment) : Prop :=
  ∀ i a r f, m.event = .executed i a r → i.member? = some f → i.fieldHolder? a = some (.ref id) →
    (i.opcode = .getField → LoadsField id (same f) K i f a r m.state) ∧
    (i.opcode = .putField → StoresField id K i f a r m.state)

/-- The fields of the object have what was stored last to their names. -/
def FieldsStored (id : Nat) (L : List Moment) (s : State) : Prop :=
  ∀ name, Latest (Puts id (name = ·.name)) L (s.heap.field? id name)

/-- What has been stored to a field fits the type that it was stored with. -/
theorem FieldLaw.fits (hL : AtEach (FieldLaw same id) L) {field : MemberRef → Prop} {v : Value}
    (hv : Latest (Puts id field) L (some v)) :
    ∃ descriptor ty, Step.fieldType descriptor = .ok ty ∧ v.fits ty = true := by
  obtain ⟨m, hm, i, a, p, f, he, hi, hholder, hf, hhead, -⟩ := hv.exists_mem
  obtain ⟨K, hK⟩ := AtEach.exists_prefix hm
  have hstore := (hL K m hK i a _ f he hf hholder).2 hi
  generalize m.state = t at hstore
  cases hstore with
  | stores _ hty hfits _ hstack =>
    rw [hstack] at hhead
    cases hhead
    exact ⟨_, _, hty, hfits⟩

theorem loadsField_of_ends (hstored : FieldsStored id L s) (hL : AtEach (FieldLaw same id) L)
    (hi : i.opcode = .getField) (hm : i.member? = some f)
    (hholder : i.fieldHolder? a = some (.ref id)) (hx : Ends chain w i a L s r t) :
    LoadsField id (f.name = ·.name) L i f a r t := by
  obtain ⟨⟨L', hL'⟩, heffect⟩ := hx.of_plain (by rw [Step.intent, hi]; rfl)
  obtain ⟨rest, hvalues⟩ : ∃ rest, a.stack.values = .ref id :: rest := by
    rw [Instruction.fieldHolder?, hi] at hholder
    exact List.head?_eq_some_iff.1 hholder
  obtain ⟨e, he, hrefused⟩ | ⟨ty, fields, stack, hty, hfields, rfl, hlimit, hpush⟩ :=
    Step.execute_getField chain .idle w s hi hm hvalues
  · cases (Exec.outcome_of_error he).symm.trans heffect
    exact .refused hL' hrefused
  · have hvalue : s.heap.field? id f.name = fields.get? f.name := by
      rw [Heap.field?, hfields]
      rfl
    rw [← hvalue] at hpush
    rw [Exec.outcome, hpush] at heffect
    -- what was stored fits the type of its store, and the initial value that of the load
    obtain ⟨descriptor, ty', hty', hfits⟩ : ∃ descriptor ty', Step.fieldType descriptor = .ok ty' ∧
        ((s.heap.field? id f.name).getD (.initial ty)).fits ty' = true := by
      cases hv : s.heap.field? id f.name with
      | none => exact ⟨_, ty, hty, Value.fits_initial ty⟩
      | some v => exact FieldLaw.fits hL (hv ▸ hstored f.name)
    obtain ⟨hpushes, rfl⟩ := Step.pushes_of_fits hty' hfits heffect
    exact .loads hL' hty (hstored f.name) hvalues hlimit hpushes

theorem storesField_of_ends (hi : i.opcode = .putField) (hm : i.member? = some f)
    (hholder : i.fieldHolder? a = some (.ref id)) (hx : Ends chain w i a L s r t) : StoresField id L i f a r t := by
  obtain ⟨⟨L', hL'⟩, heffect⟩ := hx.of_plain (by rw [Step.intent, hi]; rfl)
  obtain ⟨v, rest, hvalues⟩ : ∃ v rest, a.stack.values = v :: .ref id :: rest := by
    rw [Instruction.fieldHolder?, hi] at hholder
    rcases hv : a.stack.values with _ | ⟨v, _ | ⟨u, rest⟩⟩ <;> rw [hv] at hholder <;> cases hholder
    exact ⟨v, rest, rfl⟩
  obtain ⟨e, he⟩ | ⟨v', id', fields, ty, a', hfits, hty, hvalues', hfields, hok⟩ :=
    Step.execute_putField chain .idle a w s hi hm
  · cases (Exec.outcome_of_error he).symm.trans heffect
    refine .refused hL' (by rw [hvalues]; rfl) fun ty hty hfits => ?_
    cases hfields : s.heap.fields? id with
    | none => rfl
    | some fields =>
      obtain ⟨stack, -, hok⟩ := Step.execute_putField_ok chain .idle w hi hm hvalues hty hfits hfields
      cases he.symm.trans hok
  · cases hvalues.symm.trans hvalues'
    obtain ⟨stack, hrest, hok⟩ := Step.execute_putField_ok chain .idle w hi hm hvalues hty hfits hfields
    cases (Exec.outcome_of_ok hok).symm.trans heffect
    exact .stores hL' hty hfits (by rw [hfields]; exact Option.some_ne_none _) (by rw [hvalues, hrest])

/-- An executed instruction stores to a field of the object, or leaves it as it is. -/
theorem puts_or_keeps (name : String) (hx : Ends chain w i a L s r t) :
    (∃ v, t.heap.field? id name = some v ∧ Puts id (name = ·.name) ⟨.executed i a r, t⟩ v) ∨
    t.heap.field? id name = s.heap.field? id name ∧ ∀ v, ¬ Puts id (name = ·.name) ⟨.executed i a r, t⟩ v := by
  cases r with
  | error e =>
    refine .inr ⟨hx.changes_of_error.heap.keepsFields.field? id name, ?_⟩
    rintro v ⟨i', a', p, f, hi', -⟩
    cases hi'
  | ok p =>
    by_cases hi : i.opcode = .putField
    swap
    · refine .inr ⟨(hx.keepsFields hi).field? id name, ?_⟩
      rintro v ⟨i', a', p, f, hi', hput, -⟩
      cases hi'
      exact hi hput
    obtain ⟨-, heffect⟩ := hx.of_plain (by rw [Step.intent, hi]; rfl)
    cases hm : i.member? with
    | none =>
      simp only [Step.execute, Step.executeSimple, hi, Step.member, hm] at heffect
      cases heffect
    | some f =>
      obtain ⟨e, he⟩ | ⟨v, holder, fields, ty, a', -, -, hvalues, hfields, hok⟩ :=
        Step.execute_putField chain .idle a w s hi hm
      · cases (Exec.outcome_of_error he).symm.trans heffect
      cases (Exec.outcome_of_ok hok).symm.trans heffect
      have hholder : i.fieldHolder? a = some (.ref holder) := by
        rw [Instruction.fieldHolder?, hi, hvalues]
        rfl
      dsimp only
      rw [Heap.field?_put hfields]
      -- whatever class and descriptor the reference gives, the name tells whether it is this field
      by_cases hsame : id = holder ∧ f.name = name
      · obtain ⟨rfl, rfl⟩ := hsame
        exact .inl ⟨v, if_pos ⟨rfl, rfl⟩, i, a, _, f, rfl, hi, hholder, hm, by rw [hvalues]; rfl, rfl⟩
      · refine .inr ⟨if_neg hsame, ?_⟩
        rintro v' ⟨i', a'', p, f', hi', -, hholder', hm', -, hname⟩
        cases hi'
        cases hholder.symm.trans hholder'
        cases hm.symm.trans hm'
        exact hsame ⟨rfl, hname.symm⟩

theorem tracks_fieldsStored (id : Nat) : Tracks chain w (FieldsStored id) := by
  refine .all fun name => .latest (fun hput => ?_) (fun hst => ?_) (fun _ _ => rfl) (puts_or_keeps name)
  · obtain ⟨i, a, p, f, hm, -⟩ := hput
    exact ⟨i, a, _, hm⟩
  · exact hst.heap.keepsFields.field? id name

theorem tracks_fieldLaw (id : Nat) :
    Tracks chain w fun L s => FieldsStored id L s ∧ AtEach (FieldLaw (·.name = ·.name) id) L := by
  refine (tracks_fieldsStored id).law (fun hm i a r f hi => absurd hi (hm i a r)) ?_
  intro L s t i a r hx hstored hL i' a' r' f hi' hm hholder
  cases hi'
  exact ⟨fun hi => loadsField_of_ends hstored hL hi hm hholder hx, fun hi => storesField_of_ends hi hm hholder hx⟩

def fieldRef? (id : Nat) (m : Moment) : Option MemberRef :=
  match m.event with
  | .executed i a _ => if i.fieldHolder? a = some (.ref id) then i.member? else none
  | _ => none

theorem fieldRef?_eq_some {m : Moment} (hm : m.event = .executed i a r)
    (hholder : i.fieldHolder? a = some (.ref id)) (hf : i.member? = some f) : fieldRef? id m = some f := by
  rw [fieldRef?, hm]
  dsimp only
  rw [if_pos hholder, hf]

/-- Two ways to tell fields apart have the same law where they agree on all that the object is used with. -/
theorem FieldLaw.congr (h : AtEach (FieldLaw same id) L)
    (hsame : ∀ f ∈ L.filterMap (fieldRef? id), ∀ g ∈ L.filterMap (fieldRef? id), same f g ↔ same' f g) :
    AtEach (FieldLaw same' id) L := by
  intro K m hK i a r f hm hf hholder
  have hused {m' : Moment} {i : Instruction} {a : Activation} {r : Except Stop (Next × Activation)} {f : MemberRef}
      (hm' : m' ∈ K ++ [m]) (he : m'.event = .executed i a r) (hholder : i.fieldHolder? a = some (.ref id))
      (hf : i.member? = some f) : f ∈ L.filterMap (fieldRef? id) :=
    List.mem_filterMap.2 ⟨m', hK.subset hm', fieldRef?_eq_some he hholder hf⟩
  have hf' := hused (List.mem_append_right _ (List.mem_singleton_self m)) hm hholder hf
  have hputs : ∀ m' ∈ K, ∀ v, Puts id (same f) m' v ↔ Puts id (same' f) m' v := by
    intro m' hm' v
    have hg {i : Instruction} {a : Activation} {p : Next × Activation} {g : MemberRef}
        (he : m'.event = .executed i a (.ok p)) (hholder : i.fieldHolder? a = some (.ref id))
        (hg : i.member? = some g) : same f g ↔ same' f g :=
      hsame f hf' g (hused (List.mem_append_left _ hm') he hholder hg)
    constructor
    · rintro ⟨i, a, p, g, he, hi, hholder, hm, hv, h⟩
      exact ⟨i, a, p, g, he, hi, hholder, hm, hv, (hg he hholder hm).1 h⟩
    · rintro ⟨i, a, p, g, he, hi, hholder, hm, hv, h⟩
      exact ⟨i, a, p, g, he, hi, hholder, hm, hv, (hg he hholder hm).2 h⟩
  obtain ⟨hload, hstore⟩ := h K m hK i a r f hm hf hholder
  refine ⟨fun hi => ?_, hstore⟩
  generalize m.state = t at hload ⊢
  cases hload hi with
  | refused hK hrefused => exact .refused hK hrefused
  | loads hK hty hstored hstack hlimit hpushes => exact .loads hK hty (hstored.congr hputs) hstack hlimit hpushes

/-- The fields of every object follow the law of their names; and where, of what the object is used with, equal names
mean the same field, they follow the law of the fields. -/
theorem session_fields (w : World) (tasks : List (Nat × Task)) (id : Nat) :
    AtEach (FieldLaw (·.name = ·.name) id) (standard.session w tasks (.start w.limits)) ∧
    ((∀ f ∈ (standard.session w tasks (.start w.limits)).filterMap (fieldRef? id),
        ∀ g ∈ (standard.session w tasks (.start w.limits)).filterMap (fieldRef? id),
        f.name = g.name → w.program.SameField f g) →
      AtEach (FieldLaw w.program.SameField id) (standard.session w tasks (.start w.limits))) := by
  have hstart : FieldsStored id [] (.start w.limits) := fun _ => .none fun _ hm => absurd hm List.not_mem_nil
  obtain ⟨_, -, hlaw⟩ := (tracks_fieldLaw id).session ordinary_standard tasks ⟨hstart, .nil⟩
  refine ⟨hlaw, fun hsame => FieldLaw.congr hlaw fun f hf g hg => ?_⟩
  exact ⟨hsame f hf g hg, fun h => h.name⟩

/-- Makes an object, stores 1 to one field of it and 2 to another, and loads the first. -/
def storing (first second : MemberRef) : Method :=
  ⟨"run", "()I", 8, some
    { instructions :=
        #[⟨.new, .classRef "Sub"⟩,
          ⟨.dup false 0, .none⟩,
          ⟨.invoke .special, .method ⟨"Sub", "<init>", "()V"⟩⟩,
          ⟨.store .ref, .slot 0⟩,
          ⟨.load .ref, .slot 0⟩,
          ⟨.iconst 2, .none⟩,
          ⟨.putField, .field first⟩,
          ⟨.load .ref, .slot 0⟩,
          ⟨.iconst 3, .none⟩,
          ⟨.putField, .field second⟩,
          ⟨.load .ref, .slot 0⟩,
          ⟨.getField, .field first⟩,
          ⟨.valueReturn .int, .none⟩]
      maxLocals := 1 }⟩

def storingClass (first second : MemberRef) : ClassFile := ⟨"Storing", none, [], 0, 0, [], [storing first second]⟩

/-- A class with a field `x`, and a class below it with a field of that name. -/
def heirWorld (name : String) (first second : MemberRef) : World :=
  ⟨⟨[⟨"Base", none, [], 0, 0, [⟨"x", "I", 0, none⟩], []⟩,
      ⟨"Sub", some "Base", [], 0, 0, [⟨name, "I", 0, none⟩], [⟨"<init>", "()V", 1, some ⟨#[⟨.voidReturn, .none⟩], 1⟩⟩]⟩,
      storingClass first second]⟩,
    .standard, none, [], .still 0⟩

theorem session_fields_heir :
    let x : MemberRef := ⟨"Sub", "x", "I"⟩
    let y : MemberRef := ⟨"Sub", "y", "I"⟩
    let w := heirWorld "y" x y
    let L := standard.session w [(40, .execute (storingClass x y) (storing x y) [] none)] (.start .standard)
    (∀ f ∈ L.filterMap (fieldRef? 0), ∀ g ∈ L.filterMap (fieldRef? 0), f.name = g.name → w.program.SameField f g) ∧
      AtEach (FieldLaw w.program.SameField 0) L := by
  intro x y w L
  have hused : L.filterMap (fieldRef? 0) = [x, y, x] := by decide +kernel
  have hx : w.program.SameField x x :=
    ⟨("Base", ⟨"x", "I", 0, none⟩), .above rfl (by decide) rfl (.found rfl (by decide)),
      .above rfl (by decide) rfl (.found rfl (by decide))⟩
  have hy : w.program.SameField y y := ⟨("Sub", ⟨"y", "I", 0, none⟩), .found rfl (by decide), .found rfl (by decide)⟩
  have hsame : ∀ f ∈ L.filterMap (fieldRef? 0), ∀ g ∈ L.filterMap (fieldRef? 0),
      f.name = g.name → w.program.SameField f g := by
    rw [hused]
    intro f hf g hg hname
    simp only [List.mem_cons, List.not_mem_nil, or_false] at hf hg
    rcases hf with rfl | rfl | rfl <;> rcases hg with rfl | rfl | rfl <;>
      first | exact hx | exact hy | exact absurd hname (by decide)
  exact ⟨hsame, (session_fields w _ 0).2 hsame⟩

/-- A store to a field of a class may change one of the superclass: they have the same name. -/
theorem field_shadowed :
    let x : MemberRef := ⟨"Base", "x", "I"⟩
    let x' : MemberRef := ⟨"Sub", "x", "I"⟩
    let w := heirWorld "x" x x'
    w.program.Resolves (ClassFile.declared? false x) "Base" (some ("Base", ⟨"x", "I", 0, none⟩)) ∧
    w.program.Resolves (ClassFile.declared? false x') "Sub" (some ("Sub", ⟨"x", "I", 0, none⟩)) ∧
    ∃ s', standard.execute (storingClass x x') (storing x x') [] none w (.start .standard) = .ok (.int 2) s' := by
  intro x x' w
  refine ⟨.found rfl (by decide), .found rfl (by decide), ?_⟩
  have hresult : ((standard.executeWithin 40 (storingClass x x') (storing x x') [] none).outcome w
      (.start .standard)).1 = .ok (.int 2) := by decide +kernel
  have hx := Exec.ok_of_outcome (Prod.ext hresult rfl)
  exact ⟨_, (execute_eq_within ordinary_standard (by decide) fun t ht => by cases hx.symm.trans ht).trans hx⟩

end Chain

end Jvm
