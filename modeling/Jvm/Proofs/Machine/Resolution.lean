import Jvm.Proofs.Machine.Hierarchy

/-!
# The field that a reference is to

A field is looked for in a class and then in those above it; the nearest class in which one is picked decides
(`ClassDictionary.Resolves`). Where superclasses form no circle, this comes to an end, and it says what the search
for a static field finds (`resolveStatic_of_resolves`).

There are two ways to pick: by name alone, which is what the search does (`ClassFile.named?`), and by name, descriptor
and kind, which is what a reference tells (`ClassFile.declared?`). A class may have several fields of one name, so
they differ.
-/

namespace Jvm

open Relation (TransGen)

namespace ClassFile

/-- The first field of that name, if it is static. -/
def named? (f : MemberRef) (c : ClassFile) : Option Field := (c.field? f.name).filter (·.isStatic)

/-- The field of that name and descriptor, a static one or one of objects. -/
def declared? (static : Bool) (f : MemberRef) (c : ClassFile) : Option Field :=
  c.fields.find? fun g => g.isStatic == static && g.name == f.name && g.descriptor == f.descriptor

variable {static : Bool} {f : MemberRef} {c : ClassFile} {g : Field}

theorem named?_eq_some (h : c.named? f = some g) : c.field? f.name = some g ∧ g.name = f.name := by
  obtain ⟨hfield, -⟩ := Option.filter_eq_some_iff.1 h
  exact ⟨hfield, by simpa using List.find?_some hfield⟩

theorem declared?_eq_some (h : c.declared? static f = some g) : g.name = f.name ∧ g.descriptor = f.descriptor := by
  have hg := List.find?_some h
  simp only [Bool.and_eq_true, beq_iff_eq] at hg
  exact ⟨hg.1.2, hg.2⟩

end ClassFile

namespace ClassDictionary

variable {d : ClassDictionary} {pick pick' : ClassFile → Option Field} {owner : String} {x y : Option (String × Field)}

/-- Both are classes of the program, one the superclass of the other. -/
def Super (d : ClassDictionary) (name above : String) : Prop :=
  d.contains above = true ∧ ∃ c, d.get? name = some c ∧ c.superName = some above

/-- The nearest class from `owner` upwards in which a field is picked, and the field; `none` if there is none. -/
inductive Resolves (d : ClassDictionary) (pick : ClassFile → Option Field) : String → Option (String × Field) → Prop
  | missing {owner : String} (hc : d.get? owner = none) : Resolves d pick owner none
  | found {owner : String} {c : ClassFile} {g : Field} (hc : d.get? owner = some c) (hg : pick c = some g) :
      Resolves d pick owner (some (owner, g))
  | top {owner : String} {c : ClassFile} (hc : d.get? owner = some c) (hg : pick c = none)
      (hsuper : c.superName = none) : Resolves d pick owner none
  | above {owner above : String} {c : ClassFile} {x : Option (String × Field)} (hc : d.get? owner = some c)
      (hg : pick c = none) (hsuper : c.superName = some above) (h : Resolves d pick above x) : Resolves d pick owner x

namespace Resolves

theorem unique (h : d.Resolves pick owner x) (h' : d.Resolves pick owner y) : x = y := by
  induction h with
  | above hc _ hsuper _ ih =>
    cases h' with
    | above hc' _ hsuper' h' =>
      obtain rfl := Option.some.inj (hc.symm.trans hc')
      obtain rfl := Option.some.inj (hsuper.symm.trans hsuper')
      exact ih h'
    | _ => simp_all
  | _ => cases h' <;> simp_all

theorem picked {owner' : String} {g : Field} (h : d.Resolves pick owner (some (owner', g))) :
    ∃ c, d.get? owner' = some c ∧ pick c = some g := by
  generalize hx : some (owner', g) = x at h
  induction h with
  | missing | top => cases hx
  | found hc hg => cases hx; exact ⟨_, hc, hg⟩
  | above _ _ _ _ ih => exact ih hx

theorem congr (h : d.Resolves pick owner x) (hpick : ∀ c ∈ d.classes, pick c = pick' c) : d.Resolves pick' owner x := by
  have hget {name : String} {c : ClassFile} (hc : d.get? name = some c) := hpick c (name_of_get? hc).1
  induction h with
  | missing hc => exact .missing hc
  | found hc hg => exact .found hc (hget hc ▸ hg)
  | top hc hg hsuper => exact .top hc (hget hc ▸ hg) hsuper
  | above hc hg hsuper _ ih => exact .above hc (hget hc ▸ hg) hsuper ih

end Resolves

theorem exists_resolves_of_seen (hacyclic : ∀ name, ¬ TransGen d.Super name name) (pick : ClassFile → Option Field)
    {n : Nat} {seen : List String} (hn : (d.waiting seen).length < n) (hseen : ∀ m ∈ seen, TransGen d.Super m owner) :
    ∃ x, d.Resolves pick owner x := by
  induction n generalizing seen owner with
  | zero => omega
  | succ n ih =>
    cases hc : d.get? owner with
    | none => exact ⟨_, .missing hc⟩
    | some c =>
      cases hg : pick c with
      | some g => exact ⟨_, .found hc hg⟩
      | none =>
        cases hsuper : c.superName with
        | none => exact ⟨_, .top hc hg hsuper⟩
        | some above =>
          cases habove : d.get? above with
          | none => exact ⟨_, .above hc hg hsuper (.missing habove)⟩
          | some c' =>
            have hstep : d.Super owner above := ⟨by rw [contains, habove]; rfl, c, hc, hsuper⟩
            -- the classes passed so far lead to this one, so it cannot be one of them
            have hlength := length_waiting_cons hc fun hmem => hacyclic owner (hseen owner hmem)
            have hseen' : ∀ m ∈ owner :: seen, TransGen d.Super m above := by
              intro m hm
              rcases List.mem_cons.1 hm with rfl | hm
              · exact .single hstep
              · exact (hseen m hm).tail hstep
            obtain ⟨x, hx⟩ := ih (by omega) hseen'
            exact ⟨x, .above hc hg hsuper hx⟩

/-- Where superclasses form no circle, the search comes to an end. -/
theorem exists_resolves (hacyclic : ∀ name, ¬ TransGen d.Super name name) (pick : ClassFile → Option Field)
    (owner : String) : ∃ x, d.Resolves pick owner x := by
  have hseen : ∀ m ∈ [], TransGen d.Super m owner := fun _ hm => absurd hm List.not_mem_nil
  exact exists_resolves_of_seen hacyclic pick (Nat.lt_succ_self _) hseen

/-- The search for a static field settles if it resolves by name. -/
theorem Resolves.settles {f : MemberRef} (h : d.Resolves (ClassFile.named? f) owner x) : d.Settles f.name owner := by
  induction h with
  | missing hc => exact .missing hc
  | found hc hg => exact .found hc hg
  | top hc _ hsuper => exact .top hc hsuper
  | above hc _ hsuper _ ih => exact .above hc hsuper ih

/-- Unless it is cut off, the search for a static field finds what the reference resolves to by name. -/
theorem Resolves.findStatic {f : MemberRef} (h : d.Resolves (ClassFile.named? f) owner x) (fuel : Nat) :
    Step.findStatic d f fuel owner = throw .outOfFuel ∨
      Step.findStatic d f fuel owner = x.elim (Exec.fail (.unresolvedField f.owner f.name)) pure := by
  induction h generalizing fuel with
  | missing hc =>
    cases fuel with
    | zero => exact .inl rfl
    | succ fuel => right; rw [Step.findStatic, hc]; rfl
  | found hc hg =>
    cases fuel with
    | zero => exact .inl rfl
    | succ fuel =>
      right
      rw [ClassFile.named?] at hg
      rw [Step.findStatic, hc]
      simp only [hg, (name_of_get? hc).2, Option.elim_some]
  | top hc hg hsuper =>
    cases fuel with
    | zero => exact .inl rfl
    | succ fuel =>
      right
      rw [ClassFile.named?] at hg
      rw [Step.findStatic, hc]
      simp only [hg, hsuper, Option.elim_none]
  | above hc hg hsuper _ ih =>
    cases fuel with
    | zero => exact .inl rfl
    | succ fuel =>
      rw [ClassFile.named?] at hg
      rw [Step.findStatic, hc]
      simp only [hg, hsuper]
      exact ih fuel

end ClassDictionary

/-- The search for a static field finds what the reference resolves to by name, and changes nothing. -/
theorem Step.resolveStatic_of_resolves {f : MemberRef} {w : World} {s : State} {x : Option (String × Field)}
    (h : w.program.Resolves (ClassFile.named? f) f.owner x) : resolveStatic f w s = match x with
      | some p => .ok p s
      | none => .error (.error (.emulation (.unresolvedField f.owner f.name))) s := by
  obtain ⟨r, hr⟩ := ClassDictionary.exists_findStatic (f := f) h.settles w.size_lt_fuel
  change findStatic w.program f w.fuel f.owner w s = _
  obtain hcut | hfound := h.findStatic w.fuel
  · have hstop := congrFun (congrFun (hr.symm.trans hcut) w) s
    cases r <;> cases hstop
  · rw [hfound]
    cases x <;> rfl

end Jvm
