import Jvm.Proofs.Machine.Heap
import Mathlib.Logic.Relation

/-!
# How a heap changes

Whatever an action does to the heap is made of four alterations (`Heap.Alters`): a new object, a new
interned text, the contents of an object that has none, and contents that are changed in place. Fields of
objects are told apart from other contents, since only one instruction writes to them.

So what lasts along a run (`Heap.Lasts`) is shown for these four: objects stay and keep their class, they
get contents at most once, contents keep their kind, and texts stay what they are. That the objects of
interned texts are the right ones (`Heap.Proper`) is not kept by itself but along with this.
-/

namespace Jvm

/-- In a list of keys and values, a value that replaces the one of its key is found, and the others are. -/
theorem find?_replace {κ α : Type} [BEq κ] [LawfulBEq κ] [DecidableEq κ] (l : List (κ × α)) (k k' : κ) (v : α) :
    (((k, v) :: l.filter (·.1 != k)).find? (·.1 == k')).map (·.2) =
      if k = k' then some v else (l.find? (·.1 == k')).map (·.2) := by
  by_cases hk : k = k'
  · rw [if_pos hk, List.find?_cons, beq_iff_eq.2 hk]
    rfl
  · rw [if_neg hk, List.find?_cons, beq_eq_false_iff_ne.2 hk, List.find?_filter]
    refine congrArg (Option.map _) (congrArg (List.find? · l) (funext fun entry => ?_))
    by_cases hentry : entry.1 = k'
    · simp [hentry, Ne.symm hk]
    · simp [hentry]

theorem Fields.get?_put (fields : Fields) (name other : String) (v : Value) :
    (fields.put name v).get? other = if name = other then some v else fields.get? other :=
  find?_replace fields name other v

/-- No field of an object has been stored to. -/
def Payload.Blank : Payload → Prop
  | record fields => fields = []
  | _ => True

/-- The later object has the class of the earlier one, and contents of the kind of its contents if there
were any; texts and class objects are the same. -/
structure HeapObject.Lasts (o o' : HeapObject) : Prop where
  className : o'.className = o.className
  contents : ∀ p, o.payload = some p → ∃ q, o'.payload = some q ∧ q.kind = p.kind ∧ (p.Lasting → q = p)

namespace HeapObject.Lasts

variable {o o' o'' : HeapObject}

theorem refl (o : HeapObject) : o.Lasts o := ⟨rfl, fun p hp => ⟨p, hp, rfl, fun _ => rfl⟩⟩

theorem trans (h : o.Lasts o') (h' : o'.Lasts o'') : o.Lasts o'' := by
  refine ⟨h'.className.trans h.className, fun p hp => ?_⟩
  obtain ⟨q, hq, hkind, hlast⟩ := h.contents p hp
  obtain ⟨r, hr, hkind', hlast'⟩ := h'.contents q hq
  exact ⟨r, hr, hkind'.trans hkind, fun hl => by
    obtain rfl := hlast hl
    exact hlast' hl⟩

end HeapObject.Lasts

/-- A change in place leaves contents of their kind. -/
theorem View.Mutable.kind_edited {α : Type} {view : View α} (hv : view.Mutable) (f : α → α) (p : Payload) :
    (view.edited f p).kind = p.kind := by
  unfold edited
  cases hr : view.read? p with
  | none => rfl
  | some a => rw [hv.kind_make, ← hv.make_read p a hr, hv.kind_make]

/-- What is no object with fields is none after the change, and has no fields to change. -/
theorem View.Mutable.read?_record {α : Type} {view : View α} (hv : view.Mutable)
    (hkind : view.kind ≠ View.record.kind) (fields : Fields) : view.read? (.record fields) = none := by
  cases hr : view.read? (.record fields) with
  | none => rfl
  | some a =>
    refine absurd ?_ hkind
    rw [← hv.kind_make a, hv.make_read _ _ hr]
    rfl

/-- Only an object with fields has contents of that kind. -/
theorem View.read?_record_eq_none {p : Payload} : record.read? p = none ↔ p.kind ≠ record.kind := by
  cases p with
  | record fields => exact ⟨nofun, fun h => absurd rfl h⟩
  | _ => exact ⟨fun _ => by dsimp only [Payload.kind, record]; decide, fun _ => rfl⟩

namespace Heap

/-- One alteration of a heap; `writes` says whether fields may be written to. -/
inductive Alters (writes : Prop) : Heap → Heap → Prop
  | push (h : Heap) (className : String) {p : Option Payload} (hp : ∀ q, p = some q → q.Blank)
      (hroom : h.size < h.limit) : Alters writes h (h.push className p).2
  | intern (h : Heap) {text : Units} (hnew : h.interned? text = none) (hroom : h.size < h.limit) :
      Alters writes h (h.pushInterned text).2
  | construct {h : Heap} {id : Nat} {p : Payload} (hu : h.contents? id = none) (hp : p.Blank) :
      Alters writes h (h.setPayload id p)
  | edit {α : Type} {view : View α} (hv : view.Mutable) (hw : view.kind = View.record.kind → writes)
      (h : Heap) (id : Nat) (f : α → α) : Alters writes h (h.edit view id f)

/-- Alterations, one after the other. -/
def Leads (writes : Prop) : Heap → Heap → Prop := Relation.ReflTransGen (Alters writes)

variable {writes : Prop} {h h' h'' : Heap}

theorem Leads.refl (h : Heap) : h.Leads writes h := Relation.ReflTransGen.refl

theorem Leads.trans (h₁ : h.Leads writes h') (h₂ : h'.Leads writes h'') : h.Leads writes h'' :=
  Relation.ReflTransGen.trans h₁ h₂

theorem Alters.leads (h₁ : h.Alters writes h') : h.Leads writes h' := .single h₁

theorem Alters.mono {writes' : Prop} (hw : writes → writes') (h₁ : h.Alters writes h') : h.Alters writes' h' := by
  cases h₁ with
  | push _ className hp hroom => exact .push _ className hp hroom
  | intern _ hnew hroom => exact .intern _ hnew hroom
  | construct hu hp => exact .construct hu hp
  | edit hv hr _ id f => exact .edit hv (fun hk => hw (hr hk)) _ id f

theorem Leads.mono {writes' : Prop} (hw : writes → writes') (h₁ : h.Leads writes h') : h.Leads writes' h' := by
  induction h₁ with
  | refl => exact .refl h
  | tail _ ha ih => exact ih.trans (ha.mono hw).leads

/-! ### What lasts -/

/-- The later heap has all objects of the earlier one, and its interned texts. -/
structure Lasts (h h' : Heap) : Prop where
  limit : h'.limit = h.limit
  objects : ∀ (id : Nat) (o : HeapObject), h.objects[id]? = some o → ∃ o', h'.objects[id]? = some o' ∧ o.Lasts o'
  interned : ∀ text id, h.interned? text = some id → h'.interned? text = some id

namespace Lasts

theorem refl (h : Heap) : h.Lasts h := ⟨rfl, fun _ o ho => ⟨o, ho, .refl o⟩, fun _ _ hi => hi⟩

theorem trans (h₁ : h.Lasts h') (h₂ : h'.Lasts h'') : h.Lasts h'' := by
  refine ⟨h₂.limit.trans h₁.limit, fun id o ho => ?_, fun text id hi => h₂.interned _ _ (h₁.interned _ _ hi)⟩
  obtain ⟨o', ho', hl⟩ := h₁.objects id o ho
  obtain ⟨o'', ho'', hl'⟩ := h₂.objects id o' ho'
  exact ⟨o'', ho'', hl.trans hl'⟩

/-- Contents that never change stay. -/
theorem grows (hl : h.Lasts h') : h.Grows h' := by
  intro id p hlast hp
  obtain ⟨o, ho, hop⟩ := Option.bind_eq_some_iff.1 hp
  obtain ⟨o', ho', hl'⟩ := hl.objects id o ho
  obtain ⟨q, hq, -, hsame⟩ := hl'.contents p hop
  exact Option.bind_eq_some_iff.2 ⟨o', ho', by rw [hq, hsame hlast]⟩

end Lasts

theorem lasts_push (h : Heap) (className : String) (p : Option Payload) : h.Lasts (h.push className p).2 := by
  refine ⟨rfl, fun id o ho => ⟨o, ?_, .refl o⟩, fun _ _ hi => hi⟩
  change (h.objects.push ⟨className, p⟩)[id]? = some o
  have hid : id < h.objects.size := (Array.getElem?_eq_some_iff.1 ho).1
  rw [Array.getElem?_push, if_neg (Nat.ne_of_lt hid), ho]

theorem interned?_pushInterned (h : Heap) (text other : Units) : (h.pushInterned text).2.interned? other =
    if text = other then some h.size else h.interned? other := by
  change (((text, h.size) :: h.interned).find? (·.1 == other)).map (·.2) = _
  rw [List.find?_cons]
  by_cases ht : text = other
  · rw [if_pos ht, beq_iff_eq.2 ht]
    rfl
  · rw [if_neg ht, beq_eq_false_iff_ne.2 ht]
    rfl

theorem lasts_pushInterned {text : Units} (hnew : h.interned? text = none) : h.Lasts (h.pushInterned text).2 := by
  obtain ⟨hlimit, hobjects, -⟩ := h.lasts_push "java/lang/String" (some (.string text))
  refine ⟨hlimit, hobjects, fun other id hi => ?_⟩
  rw [interned?_pushInterned, if_neg, hi]
  rintro rfl
  rw [hnew] at hi
  cases hi

theorem lasts_setPayload {id : Nat} (hu : h.contents? id = none) (p : Payload) : h.Lasts (h.setPayload id p) := by
  refine ⟨rfl, fun n o ho => ?_, fun _ _ hi => hi⟩
  change ∃ o', (h.objects.modify id fun o => { o with payload := some p })[n]? = some o' ∧ _
  rw [Array.getElem?_modify, ho]
  by_cases hn : id = n
  · subst hn
    rw [if_pos rfl]
    have hnone : o.payload = none := by simpa [contents?, ho] using hu
    exact ⟨_, rfl, rfl, fun q hq => by rw [hnone] at hq; cases hq⟩
  · rw [if_neg hn]
    exact ⟨o, rfl, .refl o⟩

theorem lasts_edit {α : Type} {view : View α} (hv : view.Mutable) (h : Heap) (id : Nat) (f : α → α) :
    h.Lasts (h.edit view id f) := by
  refine ⟨rfl, fun n o ho => ?_, fun _ _ hi => hi⟩
  change ∃ o', (h.objects.modify id fun o => { o with payload := o.payload.map (view.edited f) })[n]? =
    some o' ∧ _
  rw [Array.getElem?_modify, ho]
  by_cases hn : id = n
  · rw [if_pos hn]
    refine ⟨_, rfl, rfl, fun p hp => ⟨view.edited f p, ?_, hv.kind_edited f p, fun hl => ?_⟩⟩
    · dsimp only
      rw [hp]
      rfl
    · rw [View.edited, hv.lasting p hl]
  · rw [if_neg hn]
    exact ⟨o, rfl, .refl o⟩

theorem Alters.lasts (h₁ : h.Alters writes h') : h.Lasts h' := by
  cases h₁ with
  | push _ className _ _ => exact lasts_push _ className _
  | intern _ hnew _ => exact lasts_pushInterned hnew
  | construct hu _ => exact lasts_setPayload hu _
  | edit hv _ _ id f => exact lasts_edit hv _ id f

theorem Leads.lasts (h₁ : h.Leads writes h') : h.Lasts h' := by
  induction h₁ with
  | refl => exact .refl h
  | tail _ ha ih => exact ih.trans ha.lasts

theorem Leads.grows (h₁ : h.Leads writes h') : h.Grows h' := h₁.lasts.grows

/-! ### Interned texts -/

/-- There are no more objects than there may be, and interned texts have each one object, a string of that
text. -/
structure Proper (h : Heap) : Prop where
  size_le : h.size ≤ h.limit
  strings : ∀ entry ∈ h.interned,
    h.objects[entry.2]? = some ⟨"java/lang/String", some (.string entry.1)⟩
  once : (h.interned.map (·.1)).Nodup

theorem proper_empty (limit : Nat) : (empty limit).Proper := ⟨Nat.zero_le _, nofun, List.nodup_nil⟩

/-- An interned text is one of the table. -/
theorem mem_of_interned? {text : Units} {id : Nat} (hi : h.interned? text = some id) : (text, id) ∈ h.interned := by
  obtain ⟨⟨t, n⟩, hfind, hn⟩ := Option.map_eq_some_iff.1 hi
  have ht : t = text := by simpa using List.find?_some hfind
  subst ht
  cases hn
  exact List.mem_of_find?_eq_some hfind

/-- Where no object is lost and no interned text is new, the table stays in order. -/
theorem Proper.of_lasts (hp : h.Proper) (hl : h.Lasts h') (hsize : h'.size ≤ h'.limit)
    (hi : h'.interned = h.interned) : h'.Proper := by
  refine ⟨hsize, fun entry hentry => ?_, by rw [hi]; exact hp.once⟩
  obtain ⟨⟨className, payload⟩, ho, hclass, hcontents⟩ :=
    hl.objects _ _ (hp.strings entry (by rwa [hi] at hentry))
  obtain ⟨q, hq, -, hsame⟩ := hcontents _ rfl
  obtain rfl : q = .string entry.1 := hsame trivial
  obtain rfl : className = "java/lang/String" := hclass
  obtain rfl : payload = some (.string entry.1) := hq
  exact ho

theorem Proper.pushInterned (hp : h.Proper) {text : Units} (hnew : h.interned? text = none)
    (hroom : h.size < h.limit) : (h.pushInterned text).2.Proper := by
  obtain ⟨hsize, hstrings, honce⟩ := hp.of_lasts (h.lasts_push "java/lang/String" (some (.string text)))
    (by rw [size_push]; exact hroom) rfl
  refine ⟨hsize, fun entry hentry => ?_, List.nodup_cons.2 ⟨fun hmem => ?_, honce⟩⟩
  · rcases List.mem_cons.1 hentry with rfl | hentry
    · change (h.objects.push ⟨"java/lang/String", some (.string text)⟩)[h.objects.size]? = _
      simp
    · exact hstrings entry hentry
  · obtain ⟨entry, hentry, rfl⟩ := List.mem_map.1 hmem
    have hfound := List.find?_eq_none.1 (Option.map_eq_none_iff.1 hnew) entry hentry
    simp at hfound

theorem Alters.proper (h₁ : h.Alters writes h') (hp : h.Proper) : h'.Proper := by
  cases h₁ with
  | push _ className _ hroom =>
    refine hp.of_lasts (lasts_push h className _) ?_ rfl
    rw [size_push]
    exact hroom
  | intern _ hnew hroom => exact hp.pushInterned hnew hroom
  | construct hu _ =>
    refine hp.of_lasts (lasts_setPayload hu _) ?_ rfl
    rw [size_setPayload]
    exact hp.size_le
  | edit hv _ _ id f =>
    refine hp.of_lasts (lasts_edit hv _ id f) ?_ rfl
    rw [size_edit]
    exact hp.size_le

theorem Leads.proper (h₁ : h.Leads writes h') (hp : h.Proper) : h'.Proper := by
  induction h₁ with
  | refl => exact hp
  | tail _ ha ih => exact ha.proper ih

/-! ### Fields -/

/-- The fields of an object that has any. -/
def fields? (h : Heap) (id : Nat) : Option Fields := (h.contents? id).bind View.record.read?

theorem fields?_eq_some {id : Nat} {fields : Fields} :
    h.fields? id = some fields ↔ h.contents? id = some (.record fields) := by
  rw [fields?, Option.bind_eq_some_iff]
  constructor
  · rintro ⟨p, hp, hr⟩
    rw [hp, ← View.mutable_record.make_read p fields hr]
    rfl
  · exact fun hp => ⟨_, hp, rfl⟩

theorem fields?_edit (h : Heap) (id : Nat) (f : Fields → Fields) (n : Nat) :
    (h.edit View.record id f).fields? n = if n = id then (h.fields? n).map f else h.fields? n := by
  rw [fields?, contents?_edit]
  split
  · rw [fields?]
    cases h.contents? n with
    | none => rfl
    | some p => cases p <;> rfl
  · rfl

theorem narrow_record {v : Value} {fields : Fields} :
    h.narrow View.record v = .ok fields ↔ ∃ id, v = .ref id ∧ h.fields? id = some fields := by
  simp only [fields?_eq_some, ← payload_eq_ok, narrow]
  cases hp : h.payload v with
  | error => simp [bind, Except.bind]
  | ok p => cases p <;> simp [bind, Except.bind, View.record]

/-- The fields of every object are what they were; an object may have got its contents, with no field stored. -/
def KeepsFields (h h' : Heap) : Prop :=
  ∀ id, h'.fields? id = h.fields? id ∨ h.fields? id = none ∧ h'.fields? id = some []

theorem KeepsFields.refl (h : Heap) : h.KeepsFields h := fun _ => .inl rfl

theorem KeepsFields.trans (h₁ : h.KeepsFields h') (h₂ : h'.KeepsFields h'') : h.KeepsFields h'' := by
  intro id
  rcases h₁ id with hid | ⟨hnone, hid⟩
  · rw [← hid]
    exact h₂ id
  · rcases h₂ id with hid' | ⟨hnone', -⟩
    · exact .inr ⟨hnone, hid'.trans hid⟩
    · rw [hid] at hnone'
      cases hnone'

theorem blank_fields {p : Option Payload} (hp : ∀ q, p = some q → q.Blank) :
    p.bind View.record.read? = none ∨ p.bind View.record.read? = some [] := by
  cases p with
  | none => exact .inl rfl
  | some q =>
    cases q with
    | record fields =>
      obtain rfl : fields = [] := hp _ rfl
      exact .inr rfl
    | _ => exact .inl rfl

theorem keepsFields_push (h : Heap) (className : String) {p : Option Payload} (hp : ∀ q, p = some q → q.Blank) :
    h.KeepsFields (h.push className p).2 := by
  intro id
  rw [fields?, contents?_push]
  split
  · rename_i hid
    subst hid
    have hold : h.fields? h.size = none := by rw [fields?, contents?_size]; rfl
    rw [hold]
    exact (blank_fields hp).imp_right fun hq => ⟨rfl, hq⟩
  · exact .inl rfl

theorem Alters.keepsFields (h₁ : h.Alters False h') : h.KeepsFields h' := by
  cases h₁ with
  | push _ className hp _ => exact keepsFields_push _ className hp
  | intern _ _ _ => exact keepsFields_push _ _ fun q hq => by cases hq; trivial
  | @construct _ id p hu hp =>
    intro n
    rw [fields?, contents?_setPayload]
    split
    · rename_i hn
      have hold : h.fields? n = none := by rw [fields?, hn.1, hu]; rfl
      rw [hold]
      exact (blank_fields (p := some p) fun q hq => by cases hq; exact hp).imp_right fun hq => ⟨rfl, hq⟩
    · exact .inl rfl
  | @edit _ view hv hw _ id f =>
    have hkind : view.kind ≠ View.record.kind := fun hk => hw hk
    intro n
    rw [fields?, contents?_edit]
    split
    · cases hn : h.contents? n with
      | none => exact .inl (by rw [fields?, hn]; rfl)
      | some p =>
        have hsame : View.record.read? (view.edited f p) = View.record.read? p := by
          by_cases hp : p.kind = View.record.kind
          · obtain ⟨fields, hfields⟩ := Option.ne_none_iff_exists'.1 fun hr => View.read?_record_eq_none.1 hr hp
            rw [← View.mutable_record.make_read p fields hfields]
            change View.record.read? (view.edited f (.record fields)) = _
            rw [View.edited, hv.read?_record hkind fields]
            rfl
          · rw [View.read?_record_eq_none.2 hp, View.read?_record_eq_none, hv.kind_edited]
            exact hp
        exact .inl (by rw [fields?, hn]; exact hsame)
    · exact .inl rfl

theorem Leads.keepsFields (h₁ : h.Leads False h') : h.KeepsFields h' := by
  induction h₁ with
  | refl => exact .refl h
  | tail _ ha ih => exact ih.trans ha.keepsFields

end Heap

end Jvm
