import Jvm.Proofs.Machine.FieldAccess
import Jvm.Proofs.Machine.Fuel
import Jvm.Proofs.Machine.Resolution
import Jvm.Proofs.Machine.Throughout

/-!
# Static fields

A static field has the value that was stored to it last, whatever class the reference named, else its constant, else
the initial value of its type (`Chain.session_statics`). Which field a reference is to is found by name alone, so that
this is a law of the names: references of different descriptors may be to one field, and an object field hides a static
one of the same name (`Chain.static_hidden`). Where the references that are used resolve by name to the fields that
they are to, it is the law of the fields.
-/

namespace Jvm

open Relation (TransGen)

/-! ### What loads and stores do -/

namespace Step

variable {chain : Chain} {i : Instruction} {a : Activation} {v : Value} {w : World} {s : State} {f : MemberRef}

/-- The value of a static field that nothing has been stored to. -/
def fresh (g : Field) : Exec Value :=
  match g.constant with
  | some c => constantValue c
  | none => do return Value.initial (← fieldType g.descriptor)

/-- The value of a static field, given what was stored to it last. -/
def held (g : Field) : Option Value → Exec Value
  | some v => pure v
  | none => fresh g

def pushStatic (g : Field) (stored : Option Value) : Step Next := do
  push (← (held g stored : Exec Value))
  return .advance

theorem effect_loadStatic : effect chain i v (.loadStatic f) a w s = match resolveStatic f w s with
    | .ok (owner, g) t => pushStatic g (t.static? owner g.name) a w t
    | .error e t => .error e t := by
  have hidle : Hooks.idle.initClass f.owner w s = .ok () s := rfl
  rw [effect, bind_apply, lift_apply, getStatic, Exec.bind_apply, hidle]
  dsimp only
  rw [Exec.bind_apply]
  cases resolveStatic f w s with
  | error => rfl
  | ok p t =>
    obtain ⟨owner, g⟩ := p
    dsimp only
    rw [Exec.bind_apply, Exec.get_apply, pushStatic, bind_apply, lift_apply]
    dsimp only
    cases t.static? owner g.name <;> rfl

/-- A value that nothing was stored to is missing only for want of room or because of its descriptor. -/
theorem fresh_error {g : Field} {e : Stop} {t : State} (hx : fresh g w s = .error e t) :
    (∃ limit, e = .error (.emulation (.heapLimit limit))) ∨
      e = .error (.emulation (.invalidDescriptor g.descriptor)) := by
  unfold fresh at hx
  cases hg : g.constant with
  | none =>
    simp only [hg] at hx
    rw [Exec.bind_apply, Exec.ofExcept_apply, fieldType] at hx
    cases hty : FieldType.parse g.descriptor with
    | ok => rw [hty] at hx; cases hx
    | error => rw [hty] at hx; cases hx; exact .inr rfl
  | some k =>
    simp only [hg] at hx
    cases k with
    | string text =>
      obtain ⟨f, hf, rfl⟩ := (Exec.onHeap_intern text).of_error hx
      exact .inl ⟨_, by rw [Heap.interning_error hf]⟩
    | classRef name =>
      obtain ⟨f, hf, rfl⟩ := (Exec.onHeap_make _ _).of_error hx
      exact .inl ⟨_, by rw [Heap.making_error hf]⟩
    | _ => cases hx

/-- What is pushed is the stored value, or else the value before. -/
theorem pushStatic_cases {g : Field} {stored : Option Value} {r : Except Stop (Next × Activation)} {t : State}
    (hx : (pushStatic g stored a).outcome w s = (r, t)) :
    (∃ v stack, r = .ok (.advance, { a with stack }) ∧ stack.values = v :: a.stack.values ∧
      (stored = some v ∨ stored = none ∧ fresh g w s = .ok v t)) ∨
    ∃ e, r = .error e ∧ ∀ owner name, e ≠ .error (.emulation (.unresolvedField owner name)) := by
  rw [Exec.outcome, pushStatic, bind_apply, lift_apply] at hx
  cases hv : held g stored w s with
  | error e u =>
    rw [hv] at hx
    cases hx
    cases stored with
    | some v => cases hv
    | none => obtain ⟨limit, rfl⟩ | rfl := fresh_error hv <;> exact .inr ⟨_, rfl, fun _ _ h => by cases h⟩
  | ok v u =>
    rw [hv] at hx
    dsimp only at hx
    obtain ⟨stack, hstack, hpush⟩ | ⟨-, f, hpush, hf⟩ := push_advance (a := a) (w := w) (s := u) v
    · rw [hpush] at hx
      cases hx
      refine .inl ⟨v, stack, rfl, hstack, ?_⟩
      cases stored with
      | some v' => cases hv; exact .inl rfl
      | none => exact .inr ⟨rfl, hv⟩
    · rw [hpush] at hx
      cases hx
      refine .inr ⟨_, rfl, fun owner name heq => ?_⟩
      cases heq
      exact hf _ _ rfl

end Step

def Constant.fits (k : Constant) (ty : FieldType) : Bool :=
  match k with
  | .int v => (Value.int v).fits ty
  | .long v => (Value.long v).fits ty
  | .float v => (Value.float v).fits ty
  | .double v => (Value.double v).fits ty
  | .string _ | .classRef _ => Value.null.fits ty

/-- The constants of static fields are of the types of these. -/
def ClassDictionary.ConstantsFit (d : ClassDictionary) : Prop :=
  ∀ c ∈ d.classes, ∀ g ∈ c.fields, ∀ k, g.constant = some k →
    ∀ ty, Step.fieldType g.descriptor = .ok ty → k.fits ty = true

/-- A reference fits where any other one fits. -/
theorem Value.fits_of_reference {v : Value} (hv : v.isReferenceLike = true) {ty : FieldType}
    (hty : Value.null.fits ty = true) : v.fits ty = true := by
  cases ty <;> first | exact hv | cases hty

/-- A value that nothing was stored to fits the type of the field if its constant does. -/
theorem Step.fits_of_fresh {g : Field} {w : World} {s t : State} {v : Value} {ty : FieldType}
    (hconstant : ∀ k, g.constant = some k → k.fits ty = true) (hty : fieldType g.descriptor = .ok ty)
    (hx : fresh g w s = .ok v t) : v.fits ty = true := by
  unfold fresh at hx
  cases hg : g.constant with
  | none =>
    simp only [hg, hty] at hx
    cases hx
    exact Value.fits_initial ty
  | some k =>
    have hk := hconstant k hg
    simp only [hg] at hx
    cases k with
    | string text =>
      obtain ⟨_, -, rfl, -⟩ | ⟨-, -, rfl, -⟩ := Heap.interning_ok ((Exec.onHeap_intern text).of_ok hx) <;>
        exact Value.fits_of_reference rfl hk
    | classRef name =>
      obtain ⟨-, rfl, -⟩ := Heap.making_ok ((Exec.onHeap_make _ _).of_ok hx)
      exact Value.fits_of_reference rfl hk
    | _ =>
      cases hx
      exact hk

/-! ### The law -/

def MemberRef.unresolved (f : MemberRef) : Stop := .error (.emulation (.unresolvedField f.owner f.name))

namespace Chain

variable {chain : Chain} {w : World} {d : ClassDictionary} {pick pick' : MemberRef → ClassFile → Option Field}
  {L K : List Moment} {m : Moment} {s t : State}

/-- The moment stores that value to the field of the class; `pick` says which field of a class a reference is to. -/
def Stores (d : ClassDictionary) (pick : MemberRef → ClassFile → Option Field) (owner : String) (g : Field)
    (m : Moment) (v : Value) : Prop :=
  ∃ i a p f, m.event = .executed i a (.ok p) ∧ i.opcode = .putStatic ∧ i.member? = some f ∧
    a.stack.values.head? = some v ∧ d.Resolves (pick f) f.owner (some (owner, g))

/-- How a load from a static field ends: after `K`, in an activation, with a result and a state. -/
inductive LoadsStatic (w : World) (pick : MemberRef → ClassFile → Option Field) (K : List Moment) (f : MemberRef)
    (a : Activation) : Except Stop (Next × Activation) → State → Prop
  /-- The class could not be set up. -/
  | setUp {K' : List Moment} {e : Stop} {t : State} (hK : K = K' ++ [⟨.fails f.owner, t⟩]) :
      LoadsStatic w pick K f a (.error e) t
  | unresolved {K' : List Moment} {t : State} (hK : K = K' ++ [⟨.uses f.owner, t⟩])
      (h : w.program.Resolves (pick f) f.owner none) : LoadsStatic w pick K f a (.error f.unresolved) t
  /-- The value that was stored last to the field is pushed, or its value before. -/
  | loads {K' : List Moment} {s t : State} {r : Except Stop (Next × Activation)} {owner : String} {g : Field}
      {stored : Option Value} (hK : K = K' ++ [⟨.uses f.owner, s⟩])
      (h : w.program.Resolves (pick f) f.owner (some (owner, g)))
      (hstored : Latest (Stores w.program pick owner g) K stored) (hr : r ≠ .error f.unresolved)
      (hx : (Step.pushStatic g stored a).outcome w s = (r, t)) : LoadsStatic w pick K f a r t

inductive StoresStatic (w : World) (pick : MemberRef → ClassFile → Option Field) (K : List Moment) (i : Instruction)
    (f : MemberRef) (a : Activation) : Except Stop (Next × Activation) → State → Prop
  /-- There is no value, or it is none that the descriptor of the reference admits. -/
  | operands {K' : List Moment} {e : Stop} {t : State} (hK : K = K' ++ [⟨.begins i a, t⟩]) (he : e ≠ f.unresolved) :
      StoresStatic w pick K i f a (.error e) t
  /-- The class could not be set up. -/
  | setUp {K' : List Moment} {e : Stop} {t : State} (hK : K = K' ++ [⟨.fails f.owner, t⟩]) :
      StoresStatic w pick K i f a (.error e) t
  | unresolved {K' : List Moment} {t : State} (hK : K = K' ++ [⟨.uses f.owner, t⟩])
      (h : w.program.Resolves (pick f) f.owner none) : StoresStatic w pick K i f a (.error f.unresolved) t
  | stores {K' : List Moment} {s : State} {owner : String} {g : Field} {v : Value} {stack : OperandStack}
      {ty : FieldType} (hK : K = K' ++ [⟨.uses f.owner, s⟩])
      (h : w.program.Resolves (pick f) f.owner (some (owner, g))) (hv : a.stack.values = v :: stack.values)
      (hty : Step.fieldType f.descriptor = .ok ty) (hfits : v.fits ty = true) :
      StoresStatic w pick K i f a (.ok (.advance, { a with stack })) (s.putStatic owner g.name v)

/-- A load from a static field and a store to one that have been executed end like this. -/
def StaticLaw (w : World) (pick : MemberRef → ClassFile → Option Field) (K : List Moment) (m : Moment) : Prop :=
  ∀ i a r f, m.event = .executed i a r → i.member? = some f →
    (i.opcode = .getStatic → LoadsStatic w pick K f a r m.state) ∧
    (i.opcode = .putStatic → StoresStatic w pick K i f a r m.state)

/-- The fields that references are to by name have what was stored last to them. -/
def StaticsStored (w : World) (L : List Moment) (s : State) : Prop :=
  ∀ owner c g, w.program.get? owner = some c → c.field? g.name = some g →
    Latest (Stores w.program ClassFile.named? owner g) L (s.static? owner g.name)

section

variable {i : Instruction} {a : Activation} {r : Except Stop (Next × Activation)} {f : MemberRef}
  (hacyclic : ∀ name, ¬ TransGen w.program.Super name name)

include hacyclic

theorem loadsStatic_of_ends (hstored : StaticsStored w L s) (hi : i.opcode = .getStatic) (hm : i.member? = some f)
    (hx : Ends chain w i a L s r t) : LoadsStatic w ClassFile.named? L f a r t := by
  obtain ⟨L', e, hL', rfl, rfl⟩ | ⟨L', v, hL', heffect⟩ := hx.of_getStatic hi hm
  · exact .setUp hL'
  obtain ⟨x, hres⟩ := w.program.exists_resolves hacyclic (ClassFile.named? f) f.owner
  rw [Exec.outcome, Step.effect_loadStatic, Step.resolveStatic_of_resolves hres] at heffect
  cases x with
  | none =>
    cases heffect
    exact .unresolved hL' hres
  | some p =>
    obtain ⟨owner, g⟩ := p
    obtain ⟨c, hc, hg⟩ := hres.picked
    obtain ⟨hfield, hname⟩ := ClassFile.named?_eq_some hg
    refine .loads hL' hres (hstored owner c g hc (hname ▸ hfield)) ?_ heffect
    obtain ⟨v, stack, rfl, -⟩ | ⟨e, rfl, he⟩ := Step.pushStatic_cases heffect
    · exact fun h => by cases h
    · exact fun heq => he _ _ (Except.error.inj heq)

theorem storesStatic_of_ends (hi : i.opcode = .putStatic) (hm : i.member? = some f) (hx : Ends chain w i a L s r t) :
    StoresStatic w ClassFile.named? L i f a r t := by
  obtain ⟨L', e, hL', he, rfl, rfl⟩ | ⟨L', e, hL', rfl, rfl⟩ | ⟨L', u, v, stack, ty, hL', hu, hty, hfits, heffect⟩ :=
    hx.of_putStatic hi hm
  · refine .operands hL' fun heq => he ?_
    cases heq
    rfl
  · exact .setUp hL'
  obtain ⟨x, hres⟩ := w.program.exists_resolves hacyclic (ClassFile.named? f) f.owner
  rw [Exec.outcome, Step.effect_storeStatic, Step.resolveStatic_of_resolves hres] at heffect
  cases x with
  | none =>
    cases heffect
    exact .unresolved hL' hres
  | some p =>
    cases heffect
    exact .stores hL' hres hu hty hfits

/-- A store that has been executed has stored its operand to the field that it resolves to by name. -/
theorem stored_of_ends {p : Next × Activation} (hi : i.opcode = .putStatic) (hm : i.member? = some f)
    (hx : Ends chain w i a L s (.ok p) t) : ∃ owner g v, t = s.putStatic owner g.name v ∧
      a.stack.values.head? = some v ∧ w.program.Resolves (ClassFile.named? f) f.owner (some (owner, g)) := by
  obtain ⟨_, _, -, -, hr, -⟩ | ⟨_, _, -, hr, -⟩ | ⟨_, u, v, stack, _, -, hu, -, -, heffect⟩ := hx.of_putStatic hi hm
  · cases hr
  · cases hr
  obtain ⟨x, hres⟩ := w.program.exists_resolves hacyclic (ClassFile.named? f) f.owner
  rw [Exec.outcome, Step.effect_storeStatic, Step.resolveStatic_of_resolves hres] at heffect
  cases x with
  | none => cases heffect
  | some q =>
    cases heffect
    exact ⟨q.1, q.2, u, rfl, by rw [hu]; rfl, hres⟩

/-- An executed instruction stores to the field, or leaves it as it is. -/
theorem stores_or_keeps {owner : String} {c : ClassFile} {g : Field} (hc : w.program.get? owner = some c)
    (hg : c.field? g.name = some g) (hx : Ends chain w i a L s r t) :
    (∃ v, t.static? owner g.name = some v ∧ Stores w.program ClassFile.named? owner g ⟨.executed i a r, t⟩ v) ∨
    t.static? owner g.name = s.static? owner g.name ∧
      ∀ v, ¬ Stores w.program ClassFile.named? owner g ⟨.executed i a r, t⟩ v := by
  have hkept (hstatics : t.statics = s.statics) : t.static? owner g.name = s.static? owner g.name := by
    rw [State.static?, hstatics]
    rfl
  cases r with
  | error e =>
    refine .inr ⟨hkept (hx.changes_of_error.statics not_false), ?_⟩
    rintro v ⟨i', a', p, f, hi', -⟩
    cases hi'
  | ok p =>
    by_cases hi : i.opcode = .putStatic
    swap
    · refine .inr ⟨hkept (hx.statics hi), ?_⟩
      rintro v ⟨i', a', p, f, hi', hput, -⟩
      cases hi'
      exact hi hput
    cases hm : i.member? with
    | none =>
      obtain ⟨-, hfails⟩ := hx.of_plain (by simp only [Step.intent, hi, Step.onMember, hm]; rfl)
      simp only [Step.execute, Step.executeSimple, hi, Step.member, hm] at hfails
      cases hfails
    | some f =>
      obtain ⟨owner', g', v, rfl, hv, hres⟩ := stored_of_ends hacyclic hi hm hx
      obtain ⟨c', hc', hg'⟩ := hres.picked
      obtain ⟨hfield, hname⟩ := ClassFile.named?_eq_some hg'
      rw [State.static?_putStatic]
      by_cases hkey : (owner', g'.name) = (owner, g.name)
      · -- only the first field of a name is found, so that class and name tell the field
        obtain ⟨rfl, hname'⟩ := Prod.mk.inj hkey
        obtain rfl := Option.some.inj (hc.symm.trans hc')
        rw [← hname, hname', hg] at hfield
        cases hfield
        exact .inl ⟨v, if_pos hkey, i, a, _, f, rfl, hi, hm, hv, hres⟩
      · refine .inr ⟨if_neg hkey, ?_⟩
        rintro v' ⟨i', a', p', f', hi', -, hm', -, hres'⟩
        cases hi'
        obtain rfl := Option.some.inj (hm.symm.trans hm')
        cases hres.unique hres'
        exact hkey rfl

theorem tracks_staticsStored : Tracks chain w (StaticsStored w) := by
  refine .all fun owner => .all fun c => .all fun g => .all fun hc => .all fun hg => ?_
  refine .latest ?_ (fun hst => ?_) (fun _ _ => rfl) (stores_or_keeps hacyclic hc hg)
  · rintro m v ⟨i, a, p, f, hm, -⟩
    exact ⟨i, a, _, hm⟩
  · rw [State.static?, hst.statics not_false]
    rfl

theorem tracks_staticLaw :
    Tracks chain w fun L s => StaticsStored w L s ∧ AtEach (StaticLaw w ClassFile.named?) L := by
  refine (tracks_staticsStored hacyclic).law (fun hm i a r f hi => absurd hi (hm i a r)) ?_
  intro L s t i a r hx hstored _ i' a' r' f hi' hm
  cases hi'
  exact ⟨fun hi => loadsStatic_of_ends hacyclic hstored hi hm hx, fun hi => storesStatic_of_ends hacyclic hi hm hx⟩

end

def staticRef? (m : Moment) : Option MemberRef :=
  match m.event with
  | .executed i _ _ => if i.opcode = .getStatic ∨ i.opcode = .putStatic then i.member? else none
  | _ => none

theorem staticRef?_eq_some {i : Instruction} {a : Activation} {r : Except Stop (Next × Activation)} {f : MemberRef}
    (hm : m.event = .executed i a r) (hi : i.opcode = .getStatic ∨ i.opcode = .putStatic) (hf : i.member? = some f) :
    staticRef? m = some f := by
  rw [staticRef?, hm]
  dsimp only
  rw [if_pos hi, hf]

/-- Two ways to pick fields have the same law where all references resolve to the same. -/
theorem StaticLaw.congr (h : AtEach (StaticLaw w pick) L)
    (hpick : ∀ f ∈ L.filterMap staticRef?, ∀ x,
      w.program.Resolves (pick f) f.owner x ↔ w.program.Resolves (pick' f) f.owner x) :
    AtEach (StaticLaw w pick') L := by
  intro K m hK i a r f hm hf
  have hmem {m' : Moment} (hm' : m' ∈ K ++ [m]) : m' ∈ L := hK.subset hm'
  have hstores (owner : String) (g : Field) : ∀ m' ∈ K, ∀ v, Stores w.program pick owner g m' v ↔
      Stores w.program pick' owner g m' v := by
    intro m' hm' v
    have hagree {i : Instruction} {a : Activation} {p : Next × Activation} {f : MemberRef}
        (he : m'.event = .executed i a (.ok p)) (hi : i.opcode = .putStatic) (hf : i.member? = some f) :=
      hpick f (List.mem_filterMap.2 ⟨m', hmem (List.mem_append_left _ hm'), staticRef?_eq_some he (.inr hi) hf⟩)
    constructor
    · rintro ⟨i, a, p, f, he, hi, hf, hv, hres⟩
      exact ⟨i, a, p, f, he, hi, hf, hv, (hagree he hi hf _).1 hres⟩
    · rintro ⟨i, a, p, f, he, hi, hf, hv, hres⟩
      exact ⟨i, a, p, f, he, hi, hf, hv, (hagree he hi hf _).2 hres⟩
  obtain ⟨hload, hstore⟩ := h K m hK i a r f hm hf
  have hagree (hi : i.opcode = .getStatic ∨ i.opcode = .putStatic) :=
    hpick f (List.mem_filterMap.2 ⟨m, hmem (List.mem_append_right _ (List.mem_singleton_self m)),
      staticRef?_eq_some hm hi hf⟩)
  refine ⟨fun hi => ?_, fun hi => ?_⟩
  · generalize m.state = t at hload ⊢
    cases hload hi with
    | setUp hK => exact .setUp hK
    | unresolved hK hres => exact .unresolved hK ((hagree (.inl hi) _).1 hres)
    | loads hK hres hstored hr hx =>
      exact .loads hK ((hagree (.inl hi) _).1 hres) (hstored.congr (hstores _ _)) hr hx
  · generalize m.state = t at hstore ⊢
    cases hstore hi with
    | operands hK he => exact .operands hK he
    | setUp hK => exact .setUp hK
    | unresolved hK hres => exact .unresolved hK ((hagree (.inr hi) _).1 hres)
    | stores hK hres hv hty hfits => exact .stores hK ((hagree (.inr hi) _).1 hres) hv hty hfits

/-- A load from a static field that has been executed has pushed a value that the descriptor of the reference
admits. -/
def FittingLoad (_ : List Moment) (m : Moment) : Prop :=
  ∀ i a p f, m.event = .executed i a (.ok p) → i.opcode = .getStatic → i.member? = some f →
    ∃ v stack, p = (.advance, { a with stack }) ∧ stack.values = v :: a.stack.values ∧
      ∀ ty, Step.fieldType f.descriptor = .ok ty → v.fits ty = true

/-- Where references are to fields of their descriptors, loads fit. -/
theorem StaticLaw.fits (h : AtEach (StaticLaw w (ClassFile.declared? true)) L) (hfit : w.program.ConstantsFit) :
    AtEach FittingLoad L := by
  intro K m hK i a p f hm hi hf
  have hload := (h K m hK i a (.ok p) f hm hf).1 hi
  generalize m.state = t at hload
  cases hload with
  | @loads K' s _ _ owner g stored _ hres hstored _ hx =>
    obtain ⟨v, stack, hp, hstack, hv⟩ | ⟨e, he, -⟩ := Step.pushStatic_cases hx
    swap
    · cases he
    refine ⟨v, stack, Except.ok.inj hp, hstack, fun ty hty => ?_⟩
    obtain ⟨c, hc, hg⟩ := hres.picked
    obtain ⟨-, hdescriptor⟩ := ClassFile.declared?_eq_some hg
    obtain rfl | ⟨-, hfresh⟩ := hv
    · -- the value was stored by a reference of the same descriptor
      obtain ⟨m', hm', i', a', p', f', he, hi', hf', hhead, hres'⟩ := hstored.exists_mem
      obtain ⟨c', hc', hg'⟩ := hres'.picked
      obtain ⟨-, hdescriptor'⟩ := ClassFile.declared?_eq_some hg'
      obtain ⟨K₀, hK₀⟩ := AtEach.exists_prefix (List.mem_append_left [m] hm')
      have hstore := (h K₀ m' (hK₀.trans hK) i' a' _ f' he hf').2 hi'
      generalize m'.state = t' at hstore
      cases hstore with
      | stores _ _ hvalues hty' hfits =>
        rw [hvalues] at hhead
        cases hhead
        rw [← hdescriptor', hdescriptor, hty] at hty'
        cases hty'
        exact hfits
    · refine Step.fits_of_fresh (fun k hk => ?_) (hdescriptor ▸ hty) hfresh
      exact hfit c (ClassDictionary.name_of_get? hc).1 g (List.mem_of_find?_eq_some hg) k hk ty (hdescriptor ▸ hty)

/-- Static fields follow the law of their names; and where all references that are used resolve by name to the field
that they are to, they follow the law of the references, and loads fit these if constants fit. -/
theorem session_statics (w : World) (tasks : List (Nat × Task))
    (hacyclic : ∀ name, ¬ TransGen w.program.Super name name) :
    AtEach (StaticLaw w ClassFile.named?) (standard.session w tasks (.start w.limits)) ∧
    ((∀ f ∈ (standard.session w tasks (.start w.limits)).filterMap staticRef?, ∀ x,
        w.program.Resolves (ClassFile.named? f) f.owner x ↔
          w.program.Resolves (ClassFile.declared? true f) f.owner x) →
      AtEach (StaticLaw w (ClassFile.declared? true)) (standard.session w tasks (.start w.limits)) ∧
      (w.program.ConstantsFit → AtEach FittingLoad (standard.session w tasks (.start w.limits)))) := by
  have hstart : StaticsStored w [] (.start w.limits) := fun _ _ _ _ _ => .none fun _ hm => absurd hm List.not_mem_nil
  obtain ⟨_, -, hnames⟩ := (tracks_staticLaw hacyclic).session ordinary_standard tasks ⟨hstart, .nil⟩
  refine ⟨hnames, fun hpick => ?_⟩
  have hlaw := StaticLaw.congr hnames hpick
  exact ⟨hlaw, StaticLaw.fits hlaw⟩

/-- Stores through a subclass and loads from the class itself. -/
def inheriting : Method :=
  ⟨"run", "()I", 8, some
    { instructions :=
        #[⟨.bipush, .int 5⟩,
          ⟨.putStatic, .field ⟨"Sub", "x", "I"⟩⟩,
          ⟨.getStatic, .field ⟨"Base", "x", "I"⟩⟩,
          ⟨.valueReturn .int, .none⟩]
      maxLocals := 0 }⟩

def inheritingClass : ClassFile := ⟨"Sub", some "Base", [], 0, 0, [], [inheriting]⟩

def inheritingWorld : World :=
  ⟨⟨[⟨"Base", none, [], 0, 0, [⟨"x", "I", 8, some (.int 7)⟩], []⟩, inheritingClass]⟩, .standard, none, [], .still 0⟩

theorem session_statics_inheriting :
    (∀ name, ¬ TransGen inheritingWorld.program.Super name name) ∧
    AtEach (StaticLaw inheritingWorld (ClassFile.declared? true))
      (standard.session inheritingWorld [(9, .execute inheritingClass inheriting [] none)] (.start .standard)) ∧
    AtEach FittingLoad
      (standard.session inheritingWorld [(9, .execute inheritingClass inheriting [] none)] (.start .standard)) := by
  -- the only superclass of the program has none itself
  have hsuper : ∀ name above, inheritingWorld.program.Super name above → name = "Sub" ∧ above = "Base" := by
    rintro name above ⟨-, c, hc, hsuper⟩
    obtain ⟨hmem, rfl⟩ := ClassDictionary.name_of_get? hc
    simp only [inheritingWorld, inheritingClass, List.mem_cons, List.not_mem_nil, or_false] at hmem
    rcases hmem with rfl | rfl
    · cases hsuper
    · exact ⟨rfl, (Option.some.inj hsuper).symm⟩
  have hacyclic : ∀ name, ¬ TransGen inheritingWorld.program.Super name name := by
    intro name hcircle
    obtain ⟨above, hstep, hback⟩ := TransGen.head'_iff.1 hcircle
    obtain ⟨rfl, rfl⟩ := hsuper _ _ hstep
    rcases Relation.ReflTransGen.cases_head hback with heq | ⟨_, hstep', -⟩
    · exact absurd heq (by decide)
    · exact absurd (hsuper _ _ hstep').1 (by decide)
  have hpick : ∀ f ∈ (standard.session inheritingWorld [(9, .execute inheritingClass inheriting [] none)]
      (.start inheritingWorld.limits)).filterMap staticRef?, ∀ c ∈ inheritingWorld.program.classes,
      c.named? f = c.declared? true f := by decide +kernel
  have hfit : inheritingWorld.program.ConstantsFit := by
    intro c hc g hg k hk ty hty
    simp only [inheritingWorld, inheritingClass, List.mem_cons, List.not_mem_nil, or_false] at hc
    rcases hc with rfl | rfl
    · rw [List.mem_singleton.1 hg] at hk hty
      cases hk
      cases hty
      rfl
    · cases hg
  obtain ⟨hlaw, hfits⟩ := (session_statics inheritingWorld
    [(9, .execute inheritingClass inheriting [] none)] hacyclic).2 fun f hf x =>
      ⟨fun h => h.congr (hpick f hf), fun h => h.congr fun c hc => (hpick f hf c hc).symm⟩
  exact ⟨hacyclic, hlaw, hfits hfit⟩

def loadingHidden : Method :=
  ⟨"run", "()I", 8, some ⟨#[⟨.getStatic, .field ⟨"Hidden", "x", "I"⟩⟩, ⟨.valueReturn .int, .none⟩], 0⟩⟩

def loadingHiddenClass : ClassFile := ⟨"Loading", none, [], 0, 0, [], [loadingHidden]⟩

/-- A class with a field of objects and a static one, of one name. -/
def hiddenWorld : World :=
  ⟨⟨[⟨"Hidden", none, [], 0, 0, [⟨"x", "J", 0, none⟩, ⟨"x", "I", 8, some (.int 7)⟩], []⟩, loadingHiddenClass]⟩,
    .standard, none, [], .still 0⟩

/-- A reference to a static field may fail though its class declares the field: one of objects that has its name
stands before it. -/
theorem static_hidden :
    hiddenWorld.program.Resolves (ClassFile.declared? true ⟨"Hidden", "x", "I"⟩) "Hidden"
      (some ("Hidden", ⟨"x", "I", 8, some (.int 7)⟩)) ∧
    ∃ s', standard.execute loadingHiddenClass loadingHidden [] none hiddenWorld (.start .standard) =
      .error (.error (.emulation (.unresolvedField "Hidden" "x"))) s' := by
  refine ⟨.found rfl (by decide), ?_⟩
  have hresult : ((standard.executeWithin 20 loadingHiddenClass loadingHidden [] none).outcome hiddenWorld
      (.start .standard)).1 = .error (.error (.emulation (.unresolvedField "Hidden" "x"))) := by decide +kernel
  have hx := Exec.error_of_outcome (Prod.ext hresult rfl)
  exact ⟨_, (execute_eq_within ordinary_standard (by decide) fun t ht => by cases hx.symm.trans ht).trans hx⟩

end Chain

end Jvm
