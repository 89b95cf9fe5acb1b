import Jvm.Proofs.Machine.Ancestors

/-!
# Assignability is a preorder

`assignable_preorder`: the check whether a value of one class may be used as one of another comes to an end,
and what it answers is reflexive and transitive; arrays of references follow their elements.

Names are related in three ways: through the classes of the program, through the table of library classes, and
element by element. The table is closed (`librarySupertypes_trans`), and the names above a class of the program are
closed, but the two can be out of step: if the program defines a class of a name that the table has on its right, or
that stands above all arrays, the check ends at that name and misses what the program puts above it.
`SparesLibrary` excludes this.
-/

namespace Jvm

variable {name above top : String}

/-! ### The table of library classes -/

theorem all_librarySupertypes {supertypes : List String} (h : librarySupertypes name = supertypes) :
    (supertypes.all fun above => !isArrayName above &&
      (librarySupertypes above).all supertypes.contains) = true := by
  unfold librarySupertypes at h
  split at h
  all_goals
    subst h
    decide

theorem isArrayName_librarySupertypes (h : above ∈ librarySupertypes name) : isArrayName above = false := by
  have hall := List.all_eq_true.1 (all_librarySupertypes rfl) above h
  simpa using (Bool.and_eq_true_iff.1 hall).1

theorem librarySupertypes_trans (h : above ∈ librarySupertypes name) (h' : top ∈ librarySupertypes above) :
    top ∈ librarySupertypes name := by
  have hall := List.all_eq_true.1 (all_librarySupertypes rfl) above h
  have htop := List.all_eq_true.1 (Bool.and_eq_true_iff.1 hall).2 top h'
  exact List.contains_iff_mem.1 htop

/-! ### Names of arrays -/

namespace FieldType

theorem isArrayName_of_parse {t : FieldType} (h : parse name = .ok (.array t)) : isArrayName name = true := by
  rw [(parse_eq_ok.1 h).2]
  simp [isArrayName, descriptor, descriptorChars]

theorem eq_of_parse {target : String} {t : FieldType} (h : parse name = .ok t) (h' : parse target = .ok t) :
    name = target :=
  (parse_eq_ok.1 h).2.trans (parse_eq_ok.1 h').2.symm

end FieldType

namespace ClassDictionary

open FieldType (parse)

variable {d : ClassDictionary} {target : String} {s t : FieldType} {result : Bool}

/-- The types that every array can be used as, its own apart. -/
def AboveArrays (target : String) : Prop :=
  target = "java/lang/Object" ∨ target = "java/lang/Cloneable" ∨ target = "java/io/Serializable"

/-- Both names are those of arrays of references. -/
def ReferenceArrays (name target : String) (s t : FieldType) : Prop :=
  parse name = .ok (.array s) ∧ parse target = .ok (.array t) ∧ s.isReference = true ∧ t.isReference = true

/-- The target is one of the names, or the table has it above one of them. -/
def hasAbove (ancestors : List String) (target : String) : Bool :=
  ancestors.any fun c => c == target || (librarySupertypes c).contains target

/-- How the check of two names goes, without a bound on its steps. -/
inductive Checked (d : ClassDictionary) : String → String → Bool → Prop
  | same {name : String} : Checked d name name true
  | object {name : String} : Checked d name "java/lang/Object" true
  | array {name target : String} (hname : isArrayName name = true) (htarget : AboveArrays target) :
      Checked d name target true
  | elements {name target : String} {s t : FieldType} {result : Bool} (hst : ReferenceArrays name target s t)
      (h : Checked d s.internalName t.internalName result) : Checked d name target result
  | apart {name target : String} (hname : isArrayName name = true) (hne : name ≠ target)
      (htarget : ¬ AboveArrays target) (hst : ∀ s t, ¬ ReferenceArrays name target s t) :
      Checked d name target false
  | classes {name target : String} {ancestors : List String} (hname : isArrayName name = false)
      (hne : name ≠ target) (htarget : target ≠ "java/lang/Object") (hsearch : d.Searched [name] [] ancestors) :
      Checked d name target (hasAbove ancestors target)

/-! ### The cases of the check -/

theorem isAssignable_eq (d : ClassDictionary) (name target : String) :
    d.isAssignable name target =
      if name = target ∨ target = "java/lang/Object" then true
      else if isArrayName name then
        if target = "java/lang/Cloneable" ∨ target = "java/io/Serializable" then true
        else
          match parse name, parse target with
          | .ok (.array s), .ok (.array t) =>
            if s.isReference && t.isReference then d.isAssignable s.internalName t.internalName else s == t
          | _, _ => false
      else hasAbove (d.ancestors name) target := by
  rw [isAssignable, assignableWithin]
  split
  · rfl
  split
  · split
    · rfl
    cases hs : parse name with
    | error => rfl
    | ok a =>
      cases a with
      | array s =>
        cases parse target with
        | error => rfl
        | ok b =>
          cases b with
          | array t =>
            dsimp only
            by_cases href : (s.isReference && t.isReference) = true
            · rw [if_pos href, if_pos href]
              exact assignableWithin_isAssignable (FieldType.length_component hs (Bool.and_eq_true_iff.1 href).1)
            · rw [if_neg href, if_neg href]
          | _ => rfl
      | _ => rfl
  · rfl

theorem isAssignable_self (d : ClassDictionary) (name : String) : d.isAssignable name name = true := by
  rw [isAssignable_eq, if_pos (.inl rfl)]

theorem isAssignable_object (d : ClassDictionary) (name : String) :
    d.isAssignable name "java/lang/Object" = true := by
  rw [isAssignable_eq, if_pos (.inr rfl)]

theorem isAssignable_of_aboveArrays (hname : isArrayName name = true) (htarget : AboveArrays target) :
    d.isAssignable name target = true := by
  rcases htarget with rfl | htarget
  · exact d.isAssignable_object name
  · rw [isAssignable_eq, if_pos hname, if_pos htarget, ite_self]

theorem ReferenceArrays.isArrayName_right (h : ReferenceArrays name target s t) : isArrayName target = true :=
  FieldType.isArrayName_of_parse h.2.1

theorem not_isArrayName_of_aboveArrays (h : AboveArrays target) : isArrayName target = false := by
  rcases h with rfl | rfl | rfl <;> decide

/-- Arrays of references follow their elements. -/
theorem isAssignable_elements (h : ReferenceArrays name target s t) :
    d.isAssignable name target = d.isAssignable s.internalName t.internalName := by
  obtain ⟨hs, ht, hsref, htref⟩ := h
  by_cases heq : name = target
  · subst heq
    obtain rfl : s = t := by simpa using hs.symm.trans ht
    rw [isAssignable_self, isAssignable_self]
  · have htarget : ¬ AboveArrays target := fun habove => by
      have harray := FieldType.isArrayName_of_parse ht
      rw [not_isArrayName_of_aboveArrays habove] at harray
      cases harray
    rw [isAssignable_eq d name target, if_neg fun hor => hor.elim heq fun h => htarget (.inl h),
      if_pos (FieldType.isArrayName_of_parse hs), if_neg fun h => htarget (.inr h)]
    simp only [hs, ht, hsref, htref, Bool.and_self, if_true]

theorem isAssignable_apart (hname : isArrayName name = true) (hne : name ≠ target)
    (htarget : ¬ AboveArrays target) (hst : ∀ s t, ¬ ReferenceArrays name target s t) :
    d.isAssignable name target = false := by
  rw [isAssignable_eq, if_neg fun hor => hor.elim hne fun h => htarget (.inl h), if_pos hname,
    if_neg fun h => htarget (.inr h)]
  split
  · rename_i s t hs ht
    split
    · rename_i href
      obtain ⟨hsref, htref⟩ := Bool.and_eq_true_iff.1 href
      exact absurd ⟨hs, ht, hsref, htref⟩ (hst s t)
    · -- arrays of one type are written in one way
      refine beq_false_of_ne fun heq => hne ?_
      subst heq
      exact FieldType.eq_of_parse hs ht
  · rfl

theorem isAssignable_classes (hname : isArrayName name = false) (hne : name ≠ target)
    (htarget : target ≠ "java/lang/Object") :
    d.isAssignable name target = hasAbove (d.ancestors name) target := by
  rw [isAssignable_eq, if_neg fun hor => hor.elim hne htarget, if_neg (by simp [hname])]

/-! ### The check comes to an end -/

theorem checked_isAssignable (d : ClassDictionary) (name target : String) :
    d.Checked name target (d.isAssignable name target) := by
  induction hlength : name.length using Nat.strong_induction_on generalizing name target with
  | _ n ih =>
    by_cases heq : name = target
    · subst heq
      rw [isAssignable_self]
      exact .same
    by_cases hobject : target = "java/lang/Object"
    · subst hobject
      rw [isAssignable_object]
      exact .object
    cases hname : isArrayName name with
    | false =>
      rw [isAssignable_classes hname heq hobject]
      exact .classes hname heq hobject (searched_ancestors d name)
    | true =>
      by_cases htarget : AboveArrays target
      · rw [isAssignable_of_aboveArrays hname htarget]
        exact .array hname htarget
      by_cases hst : ∃ s t, ReferenceArrays name target s t
      · obtain ⟨s, t, hst⟩ := hst
        have hshorter : s.internalName.length < n := hlength ▸ FieldType.length_component hst.1 hst.2.2.1
        rw [isAssignable_elements hst]
        exact .elements hst (ih _ hshorter _ _ rfl)
      · simp only [not_exists] at hst
        rw [isAssignable_apart hname heq htarget hst]
        exact .apart hname heq htarget hst

theorem Checked.eq (h : d.Checked name target result) : d.isAssignable name target = result := by
  induction h with
  | same => exact d.isAssignable_self _
  | object => exact d.isAssignable_object _
  | array hname htarget => exact isAssignable_of_aboveArrays hname htarget
  | elements hst _ ih => exact (isAssignable_elements hst).trans ih
  | apart hname hne htarget hst => exact isAssignable_apart hname hne htarget hst
  | classes hname hne htarget hsearch =>
    rw [isAssignable_classes hname hne htarget, hsearch.unique (searched_ancestors d _)]

/-! ### What is assignable -/

theorem isAssignable_array (hname : isArrayName name = true) : d.isAssignable name target = true ↔
    name = target ∨ AboveArrays target ∨
      ∃ s t, ReferenceArrays name target s t ∧ d.isAssignable s.internalName t.internalName = true := by
  constructor
  · intro h
    by_contra hnot
    simp only [not_or, not_exists, not_and] at hnot
    obtain ⟨hne, htarget, hst⟩ := hnot
    have hfalse := isAssignable_apart hname hne htarget (d := d) fun s t hst' =>
      hst s t hst' ((isAssignable_elements hst').symm.trans h)
    rw [h] at hfalse
    cases hfalse
  · rintro (rfl | htarget | ⟨s, t, hst, h⟩)
    · exact d.isAssignable_self name
    · exact isAssignable_of_aboveArrays hname htarget
    · exact (isAssignable_elements hst).trans h

theorem isAssignable_class (hname : isArrayName name = false) : d.isAssignable name target = true ↔
    target = "java/lang/Object" ∨ ∃ c, d.Reaches name c ∧ (c = target ∨ target ∈ librarySupertypes c) := by
  have hclass : hasAbove (d.ancestors name) target = true ↔
      ∃ c, d.Reaches name c ∧ (c = target ∨ target ∈ librarySupertypes c) := by
    simp [hasAbove, List.any_eq_true, mem_ancestors]
  rw [← hclass]
  by_cases hobject : target = "java/lang/Object"
  · subst hobject
    simp [isAssignable_object]
  by_cases heq : name = target
  · subst heq
    have habove : hasAbove (d.ancestors name) name = true := hclass.2 ⟨name, .refl, .inl rfl⟩
    simp [isAssignable_self, habove]
  · rw [isAssignable_classes hname heq hobject]
    simp [hobject]

/-! ### Programs that keep off the library -/

/-- The program defines no class of a name at which the check ends, and no class of it extends or implements an
array. -/
structure SparesLibrary (d : ClassDictionary) : Prop where
  object : d.get? "java/lang/Object" = none
  cloneable : d.get? "java/lang/Cloneable" = none
  serializable : d.get? "java/io/Serializable" = none
  library : ∀ name above, above ∈ librarySupertypes name → d.get? above = none
  arrays : ∀ name above, d.Inherits name above → isArrayName above = false

theorem eq_of_reaches (hname : d.get? name = none) (h : d.Reaches name above) : above = name := by
  rcases h.cases_head with rfl | ⟨_, ⟨c, hc, -⟩, -⟩
  · rfl
  · cases hname.symm.trans hc

/-- Above a name that is no class of the program there is what the table says. -/
theorem isAssignable_undefined (hname : isArrayName name = false) (hnone : d.get? name = none)
    (h : d.isAssignable name target = true) :
    target = "java/lang/Object" ∨ target = name ∨ target ∈ librarySupertypes name := by
  rcases (isAssignable_class hname).1 h with hobject | ⟨c, hreach, habove⟩
  · exact .inl hobject
  obtain rfl := eq_of_reaches hnone hreach
  exact .inr (habove.imp_left Eq.symm)

namespace SparesLibrary

theorem isArrayName_of_reaches (h : d.SparesLibrary) (hname : isArrayName name = false)
    (hreach : d.Reaches name above) : isArrayName above = false := by
  rcases hreach.cases_tail with rfl | ⟨below, -, hinherits⟩
  · exact hname
  · exact h.arrays below above hinherits

theorem eq_of_aboveArrays (h : d.SparesLibrary) (htarget : AboveArrays target)
    (hassignable : d.isAssignable target top = true) : top = "java/lang/Object" ∨ top = target := by
  have hnone : d.get? target = none := by
    rcases htarget with rfl | rfl | rfl
    exacts [h.object, h.cloneable, h.serializable]
  have htable : librarySupertypes target = [] := by
    rcases htarget with rfl | rfl | rfl <;> rfl
  have hcases := isAssignable_undefined (not_isArrayName_of_aboveArrays htarget) hnone hassignable
  rw [htable] at hcases
  exact hcases.imp_right fun htop => htop.resolve_right List.not_mem_nil

theorem isAssignable_trans (h : d.SparesLibrary) (hbelow : d.isAssignable name above = true)
    (habove : d.isAssignable above top = true) : d.isAssignable name top = true := by
  induction hlength : name.length using Nat.strong_induction_on generalizing name above top with
  | _ n ih =>
    cases hname : isArrayName name with
    | true =>
      rcases (isAssignable_array hname).1 hbelow with rfl | htarget | ⟨s, t, hst, helements⟩
      · exact habove
      · refine isAssignable_of_aboveArrays hname ?_
        rcases h.eq_of_aboveArrays htarget habove with rfl | rfl
        · exact .inl rfl
        · exact htarget
      rcases (isAssignable_array hst.isArrayName_right).1 habove with rfl | htarget | ⟨t', u, htu, helements'⟩
      · exact hbelow
      · exact isAssignable_of_aboveArrays hname htarget
      · obtain rfl : t = t' := by simpa using hst.2.1.symm.trans htu.1
        have hsu : ReferenceArrays name top s u := ⟨hst.1, htu.2.1, hst.2.2.1, htu.2.2.2⟩
        have hshorter : s.internalName.length < n := hlength ▸ FieldType.length_component hst.1 hst.2.2.1
        rw [isAssignable_elements hsu]
        exact ih _ hshorter helements helements' rfl
    | false =>
      rcases (isAssignable_class hname).1 hbelow with rfl | ⟨c, hreach, rfl | htable⟩
      · obtain rfl := (h.eq_of_aboveArrays (.inl rfl) habove).elim id id
        exact d.isAssignable_object name
      · have hclass := h.isArrayName_of_reaches hname hreach
        refine (isAssignable_class hname).2 (((isAssignable_class hclass).1 habove).imp_right ?_)
        rintro ⟨e, hreach', htop⟩
        exact ⟨e, hreach.trans hreach', htop⟩
      · refine (isAssignable_class hname).2 ?_
        rcases isAssignable_undefined (isArrayName_librarySupertypes htable) (h.library c above htable) habove with
          hobject | rfl | htop
        · exact .inl hobject
        · exact .inr ⟨c, hreach, .inr htable⟩
        · exact .inr ⟨c, hreach, .inr (librarySupertypes_trans htable htop)⟩

end SparesLibrary

/-- The check of assignability comes to an end, with one answer. If the program keeps off the classes of the
library, what it accepts is reflexive and transitive, whatever the names; and in any program an array of
references is as good as another one just if its elements are. -/
theorem assignable_preorder (h : d.SparesLibrary) :
    (∀ name target result, d.Checked name target result ↔ d.isAssignable name target = result) ∧
    (∀ name, d.isAssignable name name = true) ∧
    (∀ name above top, d.isAssignable name above = true → d.isAssignable above top = true →
      d.isAssignable name top = true) ∧
    (∀ name target s t, parse name = .ok (.array s) → parse target = .ok (.array t) → s.isReference = true →
      t.isReference = true →
      (d.isAssignable name target = true ↔ d.isAssignable s.internalName t.internalName = true)) := by
  refine ⟨fun name target result => ⟨Checked.eq, fun hresult => hresult ▸ checked_isAssignable d name target⟩,
    isAssignable_self d, fun _ _ _ => h.isAssignable_trans, fun name target s t hs ht hsref htref => ?_⟩
  rw [isAssignable_elements ⟨hs, ht, hsref, htref⟩]

/-- An exception of a program, with an interface of the program. -/
def failures : ClassDictionary :=
  ⟨[⟨"a/Failure", some "java/lang/RuntimeException", ["a/Marked"], 0, 0, [], []⟩,
    ⟨"a/Marked", some "java/lang/Object", [], 0, 0, [], []⟩]⟩

theorem sparesLibrary_failures : failures.SparesLibrary := by
  refine ⟨by decide, by decide, by decide, fun name above h => ?_, fun name above h => ?_⟩
  · have hall : ∀ supertypes, librarySupertypes name = supertypes →
        supertypes.all (fun n => (failures.get? n).isNone) = true := by
      intro supertypes heq
      unfold librarySupertypes at heq
      split at heq
      all_goals
        subst heq
        decide
    exact Option.isNone_iff_eq_none.1 (List.all_eq_true.1 (hall _ rfl) above h)
  · obtain ⟨c, hc, habove⟩ := h
    obtain ⟨hmem, -⟩ := name_of_get? hc
    simp only [failures, List.mem_cons, List.not_mem_nil, or_false] at hmem
    rcases hmem with rfl | rfl
    all_goals
      simp only [Option.some.injEq, List.mem_cons, List.not_mem_nil, or_false] at habove
      rcases habove with rfl | rfl
      all_goals decide

/-- Arrays of arrays of the exception are arrays of arrays of exceptions, and these are arrays of what can be
written. -/
theorem assignable_preorder_failures :
    failures.SparesLibrary ∧ failures.isAssignable "[[La/Failure;" "[[Ljava/lang/Exception;" = true ∧
      failures.isAssignable "[[Ljava/lang/Exception;" "[Ljava/io/Serializable;" = true ∧
      failures.isAssignable "[[La/Failure;" "[Ljava/io/Serializable;" = true := by
  have hfirst : failures.isAssignable "[[La/Failure;" "[[Ljava/lang/Exception;" = true := by decide +kernel
  have hsecond : failures.isAssignable "[[Ljava/lang/Exception;" "[Ljava/io/Serializable;" = true := by
    decide +kernel
  exact ⟨sparesLibrary_failures, hfirst, hsecond,
    (assignable_preorder sparesLibrary_failures).2.2.1 _ _ _ hfirst hsecond⟩

end ClassDictionary

end Jvm
