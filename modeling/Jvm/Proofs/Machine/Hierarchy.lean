import Jvm.Machine.Subtyping
import Jvm.Proofs.Descriptor
import Jvm.Proofs.Machine.Setup
import Mathlib

/-!
# Searches through the classes come to an end

Whatever circles classes form, the search for all names above one visits each class once and is never cut
off (`search_eq`), and neither is the check of array types, whose names get shorter (`assignableWithin_eq`).

The search for a static field alone does not note where it has been. It ends if it comes to a class with the
field or to the end of the superclasses (`Settles`), and then within one round for each class
(`exists_findStatic`). In a circle of classes without the field it has no end, whatever the number of rounds
(`settles_iff`).
-/

namespace Jvm

namespace ClassDictionary

variable {d : ClassDictionary} {name owner above field : String} {c : ClassFile} {seen pending : List String}

/-! ### All names above a name -/

/-- The names that a first visit of a class may add. -/
def weight (c : ClassFile) : Nat := 1 + c.interfaces.length

/-- The rounds that a search may still take: one for each name that waits to be visited, and for those that
first visits may add. -/
def rounds (d : ClassDictionary) (pending seen : List String) : Nat :=
  pending.length + ((d.waiting seen).map weight).sum

theorem length_parents (hc : d.get? name = some c) : (d.parents name).length ≤ weight c := by
  rw [parents, hc, weight]
  cases c.superName <;> simp

theorem sum_filter_le (p : ClassFile → Bool) (cs : List ClassFile) :
    ((cs.filter p).map weight).sum ≤ (cs.map weight).sum := by
  induction cs with
  | nil => exact Nat.le_refl _
  | cons c cs ih =>
    rw [List.filter_cons]
    split <;> simp only [List.map_cons, List.sum_cons] <;> omega

theorem sum_waiting_cons (hc : d.get? name = some c) (hname : name ∉ seen) :
    ((d.waiting (name :: seen)).map weight).sum + weight c ≤ ((d.waiting seen).map weight).sum := by
  obtain ⟨hmem, rfl⟩ := name_of_get? hc
  have hfilter : d.waiting (c.name :: seen) = (d.waiting seen).filter fun b => b.name != c.name := by
    simp only [waiting, List.filter_filter, List.contains_cons, Bool.not_or, bne]
  have hwaits : c ∈ d.waiting seen := by simp [waiting, hmem, hname]
  rw [hfilter]
  generalize d.waiting seen = cs at hwaits
  induction cs with
  | nil => cases hwaits
  | cons b cs ih =>
    rcases List.mem_cons.1 hwaits with rfl | hwaits
    · have hle := sum_filter_le (fun b => b.name != c.name) cs
      rw [List.filter_cons_of_neg (by simp), List.map_cons, List.sum_cons]
      omega
    · have hle := ih hwaits
      rw [List.filter_cons]
      split <;> simp only [List.map_cons, List.sum_cons] <;> omega

/-- A visit of a name that waits takes a round. -/
theorem rounds_visit (hname : name ∉ seen) :
    d.rounds (d.parents name ++ pending) (name :: seen) < d.rounds (name :: pending) seen := by
  simp only [rounds, List.length_append, List.length_cons]
  cases hc : d.get? name with
  | none =>
    have hwaiting : d.waiting (name :: seen) = d.waiting seen := by
      refine List.filter_congr fun b hb => ?_
      have hne : b.name ≠ name := by
        rintro rfl
        simpa using List.find?_eq_none.1 hc b hb
      simp [hne]
    rw [hwaiting, parents, hc]
    simp
  | some c =>
    have hsum := sum_waiting_cons hc hname
    have hlength := length_parents hc
    omega

/-- More rounds than a search may take make no difference. -/
theorem search_eq {fuel fuel' : Nat} (h : d.rounds pending seen < fuel) (h' : d.rounds pending seen < fuel') :
    d.search fuel pending seen = d.search fuel' pending seen := by
  induction fuel generalizing fuel' pending seen with
  | zero => omega
  | succ fuel ih =>
    obtain ⟨fuel', rfl⟩ : ∃ k, fuel' = k + 1 := ⟨fuel' - 1, by omega⟩
    cases pending with
    | nil => rfl
    | cons name pending =>
      simp only [search, List.contains_iff_mem]
      split
      · have hrounds : d.rounds (name :: pending) seen = d.rounds pending seen + 1 := by
          simp only [rounds, List.length_cons]
          omega
        exact ih (by omega) (by omega)
      · have hrounds : d.rounds (d.parents name ++ pending) (name :: seen) < d.rounds (name :: pending) seen :=
          rounds_visit ‹name ∉ seen›
        exact ih (by omega) (by omega)

/-- No search for the names above a name is cut off. -/
theorem search_ancestors {fuel : Nat} (h : d.searchFuel ≤ fuel) :
    d.search fuel [name] [] = d.ancestors name := by
  have hsum : ((d.waiting []).map weight).sum + 2 = d.searchFuel := by
    have hfoldr : ∀ cs : List ClassFile,
        (cs.map weight).sum = cs.foldr (fun c n => 1 + c.interfaces.length + n) 0 := by
      intro cs
      induction cs with
      | nil => rfl
      | cons c cs ih => rw [List.map_cons, List.sum_cons, List.foldr_cons, ih, weight]
    have hwaiting : d.waiting [] = d.classes := List.filter_eq_self.2 fun _ _ => rfl
    rw [hwaiting, hfoldr, searchFuel, Nat.add_comm]
  have hrounds : d.rounds [name] [] < d.searchFuel := by
    simp only [rounds, List.length_singleton]
    omega
  exact search_eq (by omega) hrounds

end ClassDictionary

/-! ### Types of arrays -/

namespace FieldType

theorem length_internalName (t : FieldType) (ht : t.isReference = true) :
    t.internalName.length ≤ t.descriptorChars.length := by
  cases t with
  | object name =>
    rw [internalName, descriptorChars, ← String.length_toList, List.length_append, List.length_cons]
    omega
  | array c => simp [internalName, descriptor]
  | _ => cases ht

/-- The elements of an array type have a shorter name. -/
theorem length_component {name : String} {t : FieldType} (h : parse name = .ok (.array t))
    (ht : t.isReference = true) : t.internalName.length < name.length := by
  have hname : name.toList = (array t).descriptorChars := by
    rw [(parse_eq_ok.1 h).2, descriptor, String.toList_ofList]
  have hlength := t.length_internalName ht
  have hcons : name.length = t.descriptorChars.length + 1 := by
    rw [← String.length_toList, hname, descriptorChars, List.length_cons]
  omega

end FieldType

namespace ClassDictionary

variable {d : ClassDictionary} {name target owner above field : String} {c : ClassFile} {seen : List String}
  {fuel fuel' : Nat}

theorem assignableWithin_eq (h : name.length < fuel) (h' : name.length < fuel') :
    d.assignableWithin fuel name target = d.assignableWithin fuel' name target := by
  induction fuel generalizing fuel' name target with
  | zero => omega
  | succ fuel ih =>
    obtain ⟨fuel', rfl⟩ : ∃ k, fuel' = k + 1 := ⟨fuel' - 1, by omega⟩
    simp only [assignableWithin]
    split
    · rfl
    split
    · split
      · rfl
      split
      · rename_i a b ha hb
        split
        · rename_i href
          have hlength := FieldType.length_component ha (Bool.and_eq_true_iff.1 href).1
          exact ih (by omega) (by omega)
        · rfl
      · rfl
    · rfl

/-- No check of a type is cut off. -/
theorem assignableWithin_isAssignable (h : name.length < fuel) :
    d.assignableWithin fuel name target = d.isAssignable name target :=
  assignableWithin_eq h (Nat.lt_succ_self _)

/-! ### Static fields -/

/-- The search for a static field from a class on comes to an end: at a name that is no class of the program,
at a class with the field, or at one without a superclass. -/
inductive Settles (d : ClassDictionary) (field : String) : String → Prop
  | missing {owner : String} (hc : d.get? owner = none) : Settles d field owner
  | found {owner : String} {c : ClassFile} {f : Field} (hc : d.get? owner = some c)
      (hf : (c.field? field).filter (·.isStatic) = some f) : Settles d field owner
  | top {owner : String} {c : ClassFile} (hc : d.get? owner = some c) (hsuper : c.superName = none) :
      Settles d field owner
  | above {owner above : String} {c : ClassFile} (hc : d.get? owner = some c)
      (hsuper : c.superName = some above) (h : Settles d field above) : Settles d field owner

/-- The search for a static field goes on from a class to the one above. -/
def Passes (d : ClassDictionary) (field owner above : String) : Prop :=
  ∃ c, d.get? owner = some c ∧ (c.field? field).filter (·.isStatic) = none ∧ c.superName = some above

open Relation (TransGen)

theorem Settles.of_passes (h : d.Settles field owner) (hp : d.Passes field owner above) :
    d.Settles field above := by
  obtain ⟨c, hc, hf, hsuper⟩ := hp
  cases h with
  | missing hc' => cases hc.symm.trans hc'
  | found hc' hf' =>
    obtain rfl := Option.some.inj (hc.symm.trans hc')
    cases hf.symm.trans hf'
  | top hc' hsuper' =>
    obtain rfl := Option.some.inj (hc.symm.trans hc')
    cases hsuper.symm.trans hsuper'
  | above hc' hsuper' h =>
    obtain rfl := Option.some.inj (hc.symm.trans hc')
    obtain rfl := Option.some.inj (hsuper.symm.trans hsuper')
    exact h

/-- A search that ends does not come back to where it was. -/
theorem Settles.not_circle (h : d.Settles field owner) : ¬ TransGen (d.Passes field) owner owner := by
  intro hcircle
  induction h with
  | missing hc =>
    obtain ⟨_, ⟨c, hc', -, -⟩, -⟩ := TransGen.head'_iff.1 hcircle
    cases hc.symm.trans hc'
  | found hc hf =>
    obtain ⟨_, ⟨c, hc', hf', -⟩, -⟩ := TransGen.head'_iff.1 hcircle
    obtain rfl := Option.some.inj (hc.symm.trans hc')
    cases hf.symm.trans hf'
  | top hc hsuper =>
    obtain ⟨_, ⟨c, hc', -, hsuper'⟩, -⟩ := TransGen.head'_iff.1 hcircle
    obtain rfl := Option.some.inj (hc.symm.trans hc')
    cases hsuper.symm.trans hsuper'
  | above hc hsuper _ ih =>
    obtain ⟨_, ⟨c, hc', hf, hsuper'⟩, hback⟩ := TransGen.head'_iff.1 hcircle
    obtain rfl := Option.some.inj (hc.symm.trans hc')
    obtain rfl := Option.some.inj (hsuper.symm.trans hsuper')
    exact ih (.tail' hback ⟨_, hc, hf, hsuper⟩)

/-- A search that ends needs a round for each class that it has not seen. -/
theorem exists_findStatic_of_seen {f : MemberRef} (h : d.Settles f.name owner)
    (hseen : ∀ n ∈ seen, TransGen (d.Passes f.name) n owner) (hfuel : (d.waiting seen).length < fuel) :
    ∃ r, Step.findStatic d f fuel owner = Exec.ofExcept r := by
  induction fuel generalizing owner seen with
  | zero => omega
  | succ fuel ih =>
    unfold Step.findStatic
    cases hc : d.get? owner with
    | none => exact ⟨.error _, rfl⟩
    | some c =>
      dsimp only
      cases hf : (c.field? f.name).filter (·.isStatic) with
      | some g => exact ⟨.ok _, rfl⟩
      | none =>
        cases hsuper : c.superName with
        | none => exact ⟨.error _, rfl⟩
        | some above =>
          have hpasses : d.Passes f.name owner above := ⟨c, hc, hf, hsuper⟩
          -- the classes passed so far lead to this one, so it cannot be one of them
          have hlength := length_waiting_cons hc fun hmem => h.not_circle (hseen owner hmem)
          have hseen' : ∀ n ∈ owner :: seen, TransGen (d.Passes f.name) n above := by
            intro n hn
            rcases List.mem_cons.1 hn with rfl | hn
            · exact .single hpasses
            · exact (hseen n hn).tail hpasses
          exact ih (h.of_passes hpasses) hseen' (by omega)

theorem exists_findStatic {f : MemberRef} (h : d.Settles f.name owner) (hfuel : d.size < fuel) :
    ∃ r, Step.findStatic d f fuel owner = Exec.ofExcept r := by
  have hnone : ∀ n ∈ [], TransGen (d.Passes f.name) n owner := nofun
  exact exists_findStatic_of_seen h hnone (Nat.lt_of_le_of_lt (d.length_waiting_le []) hfuel)

/-- A search that does not end is cut off, whatever the number of rounds. -/
theorem findStatic_of_not_settles {f : MemberRef} (h : ¬ d.Settles f.name owner) :
    Step.findStatic d f fuel owner = throw .outOfFuel := by
  induction fuel generalizing owner with
  | zero => rfl
  | succ fuel ih =>
    unfold Step.findStatic
    cases hc : d.get? owner with
    | none => exact absurd (.missing hc) h
    | some c =>
      dsimp only
      cases hf : (c.field? f.name).filter (·.isStatic) with
      | some g => exact absurd (.found hc hf) h
      | none =>
        cases hsuper : c.superName with
        | none => exact absurd (.top hc hsuper) h
        | some above => exact ih fun habove => h (.above hc hsuper habove)

/-- The search for the static field of a reference comes to an end just if it settles. -/
theorem settles_iff {f : MemberRef} : d.Settles f.name f.owner ↔
    ∃ fuel r, Step.findStatic d f fuel f.owner = Exec.ofExcept r := by
  refine ⟨fun h => ⟨_, exists_findStatic h (Nat.lt_succ_self _)⟩, fun ⟨fuel, r, hr⟩ => ?_⟩
  refine Classical.byContradiction fun h => ?_
  rw [findStatic_of_not_settles h] at hr
  have happly := congrFun (congrFun hr ⟨d, .standard, none, [], .still 0⟩) (.start .standard)
  cases r <;> cases happly

end ClassDictionary

end Jvm
