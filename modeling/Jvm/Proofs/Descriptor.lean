import Jvm.Descriptor

/-!
# Reading descriptors undoes writing them

`parse_iff_descriptor`: the texts that are read are exactly the written forms of types, and each is read as the one
type that it is the written form of. Not every type has a written form that can be read back: `void` has one as a
result only, there are no arrays of it, and the name of a class ends at the first semicolon (`FieldType.IsValue`).

A descriptor has no end mark, so the lemmas on readers allow for anything behind it (`read_eq_ok`,
`readParameters_flatMap`). No parameter begins like the end of the parameters, so a list of them can be read in one
way only.
-/

namespace Jvm

namespace FieldType

variable {t : FieldType} {cs rest name : List Char}

/-- A type that fields and parameters may have. -/
def IsValue : FieldType → Prop
  | void => False
  | object name => name ≠ "" ∧ ';' ∉ name.toList
  | array component => component.IsValue
  | _ => True

theorem IsValue.ne_void (h : t.IsValue) : t ≠ void := by
  rintro rfl
  exact h

/-- A type that methods may return. -/
def IsResult (t : FieldType) : Prop := t = void ∨ t.IsValue

theorem isResult_and_ne_void : t.IsResult ∧ t ≠ void ↔ t.IsValue := by
  constructor
  · rintro ⟨h, hne⟩
    exact h.resolve_left hne
  · intro h
    exact ⟨.inr h, h.ne_void⟩

/-- The name ends at the first semicolon. -/
theorem splitClassName_eq_some : splitClassName cs = some (name, rest) ↔ ';' ∉ name ∧ cs = name ++ ';' :: rest := by
  constructor
  · intro h
    unfold splitClassName at h
    split at h
    · cases h
    · rename_i c tail hdrop
      simp only [Option.some.injEq, Prod.mk.injEq] at h
      obtain ⟨rfl, rfl⟩ := h
      have hc : c = ';' := by
        have hhead := List.head?_dropWhile_not (· != ';') cs
        rw [hdrop] at hhead
        simpa using hhead
      have happend := List.takeWhile_append_dropWhile (p := (· != ';')) (l := cs)
      rw [hdrop, hc] at happend
      refine ⟨fun hmem => ?_, happend.symm⟩
      have hall := List.all_takeWhile (p := (· != ';')) (l := cs)
      simpa using List.all_eq_true.1 hall _ hmem
  · rintro ⟨hname, rfl⟩
    have hall : ∀ c ∈ name, (c != ';') = true := by
      intro c hc
      rw [bne_iff_ne]
      rintro rfl
      exact hname hc
    simp [splitClassName, List.dropWhile_append_of_pos hall, List.takeWhile_append_of_pos hall]

/-- The written form of a type is read as that type, whatever follows. -/
theorem read_descriptorChars (h : t.IsResult) (rest : List Char) :
    read (t.descriptorChars ++ rest) = .ok (t, rest) := by
  induction t with
  | object name =>
    obtain ⟨hne, hname⟩ := h.resolve_left nofun
    have hsplit : splitClassName (name.toList ++ ';' :: rest) = some (name.toList, rest) :=
      splitClassName_eq_some.2 ⟨hname, rfl⟩
    simp only [descriptorChars, List.cons_append, List.append_assoc, List.nil_append, read, hsplit]
    split
    · rename_i heq
      cases heq
    · rename_i heq
      simp only [Option.some.injEq, Prod.mk.injEq, String.toList_eq_nil_iff] at heq
      exact absurd heq.1 hne
    · rename_i heq
      cases heq
      rw [String.ofList_toList]
  | array component ih =>
    have hcomponent : component.IsValue := h.resolve_left nofun
    rw [descriptorChars, List.cons_append, read]
    simp only [ih (.inr hcomponent)]
    cases component with
    | void => exact absurd rfl hcomponent.ne_void
    | _ => rfl
  | _ => rfl

theorem read_eq_ok : read cs = .ok (t, rest) ↔ t.IsResult ∧ cs = t.descriptorChars ++ rest := by
  constructor
  · intro h
    fun_induction read cs generalizing t rest with
    | case2 | case3 | case4 | case5 | case6 | case7 | case8 | case9 =>
      cases h
      exact ⟨.inr trivial, rfl⟩
    | case10 =>
      cases h
      exact ⟨.inl rfl, rfl⟩
    | case13 cs name rest hne hsplit =>
      cases h
      obtain ⟨hname, rfl⟩ := splitClassName_eq_some.1 hsplit
      have hempty : String.ofList name ≠ "" := by
        rintro heq
        exact hne (by simpa using heq)
      exact ⟨.inr ⟨hempty, by simpa using hname⟩, by simp [descriptorChars]⟩
    | case16 cs component rest hne hread ih =>
      cases h
      obtain ⟨hcomponent, rfl⟩ := ih hread
      have hvoid : component ≠ void := by
        rintro rfl
        exact hne rfl
      exact ⟨.inr (hcomponent.resolve_left hvoid), rfl⟩
    | _ => cases h
  · rintro ⟨h, rfl⟩
    exact read_descriptorChars h rest

theorem parse_eq_ok {s : String} : parse s = .ok t ↔ t.IsValue ∧ s = t.descriptor := by
  have hchars : s = t.descriptor ↔ s.toList = t.descriptorChars := by
    rw [descriptor, ← String.toList_inj, String.toList_ofList]
  rw [hchars, ← isResult_and_ne_void, parse]
  constructor
  · intro h
    cases hread : read s.toList with
    | error e =>
      rw [hread] at h
      cases h
    | ok r =>
      obtain ⟨u, rest⟩ := r
      simp only [hread] at h
      split at h
      · cases h
      split at h
      · cases h
      rename_i hrest hvoid
      cases h
      obtain ⟨hresult, hs⟩ := read_eq_ok.1 hread
      rw [Classical.not_not.1 hrest, List.append_nil] at hs
      exact ⟨⟨hresult, hvoid⟩, hs⟩
  · rintro ⟨⟨hresult, hvoid⟩, hs⟩
    have hread := read_descriptorChars hresult []
    rw [List.append_nil, ← hs] at hread
    simp [hread, hvoid]

end FieldType

namespace MethodDescriptor

open FieldType

variable {whole : String} {fuel : Nat} {cs rest : List Char} {ts : List FieldType} {d : MethodDescriptor}

/-- No type is written like the end of the parameters. -/
theorem descriptorChars_ne_end (t : FieldType) (cs rest : List Char) : t.descriptorChars ++ cs ≠ ')' :: rest := by
  cases t <;> simp [descriptorChars]

theorem length_descriptorChars_pos (t : FieldType) : 0 < t.descriptorChars.length := by
  cases t <;> simp [descriptorChars]

theorem isValue_of_readParameters (h : readParameters whole fuel cs = .ok (ts, rest)) :
    (∀ t ∈ ts, t.IsValue) ∧ cs = ts.flatMap descriptorChars ++ ')' :: rest := by
  fun_induction readParameters whole fuel cs generalizing ts rest with
  | case1 =>
    cases h
    exact ⟨nofun, rfl⟩
  | case6 fuel cs hend t rest' hne hread ts' rest'' hrest ih =>
    cases h
    obtain ⟨hresult, rfl⟩ := read_eq_ok.1 hread
    obtain ⟨hts, rfl⟩ := ih hrest
    have ht : t.IsValue := by
      refine hresult.resolve_left ?_
      rintro rfl
      exact hne rfl
    exact ⟨List.forall_mem_cons.2 ⟨ht, hts⟩, by rw [List.flatMap_cons, List.append_assoc]⟩
  | _ => cases h

/-- As each parameter takes at least one character, the fuel lasts. -/
theorem readParameters_flatMap (hts : ∀ t ∈ ts, t.IsValue) (hfuel : (ts.flatMap descriptorChars).length ≤ fuel) :
    readParameters whole fuel (ts.flatMap descriptorChars ++ ')' :: rest) = .ok (ts, rest) := by
  induction ts generalizing fuel with
  | nil => simp [readParameters]
  | cons t ts ih =>
    obtain ⟨ht, hts⟩ := List.forall_mem_cons.1 hts
    rw [List.flatMap_cons, List.length_append] at hfuel
    have hpos := length_descriptorChars_pos t
    obtain ⟨fuel, rfl⟩ : ∃ n, fuel = n + 1 := ⟨fuel - 1, by omega⟩
    have hread := read_descriptorChars (.inr ht) (ts.flatMap descriptorChars ++ ')' :: rest)
    have hrest := ih hts (by omega : _ ≤ fuel)
    rw [List.flatMap_cons, List.append_assoc, readParameters]
    · rw [hread]
      split
      · rename_i heq
        cases heq
      · rename_i heq
        cases heq
        exact absurd rfl ht.ne_void
      · rename_i heq
        cases heq
        rw [hrest]
    · exact descriptorChars_ne_end t _

/-- A descriptor of a method that can be read back. -/
structure IsValid (d : MethodDescriptor) : Prop where
  parameters : ∀ t ∈ d.parameters, t.IsValue
  returns : d.returns = .void ∨ d.returns.IsValue

theorem parse_eq_ok {s : String} : parse s = .ok d ↔ d.IsValid ∧ s = d.descriptor := by
  have hchars : s = d.descriptor ↔
      s.toList = '(' :: d.parameters.flatMap descriptorChars ++ ')' :: d.returns.descriptorChars := by
    rw [descriptor, ← String.toList_inj, String.toList_ofList]
  rw [hchars, parse]
  constructor
  · intro h
    split at h
    · rename_i cs hcs
      split at h
      · cases h
      rename_i ts rest hparameters
      obtain ⟨hts, rfl⟩ := isValue_of_readParameters hparameters
      split at h
      · cases h
      · rename_i returns hread
        cases h
        obtain ⟨hreturns, rfl⟩ := read_eq_ok.1 hread
        exact ⟨⟨hts, hreturns⟩, by rw [hcs, List.append_nil]; rfl⟩
      · cases h
    · cases h
  · rintro ⟨⟨hts, hreturns⟩, hs⟩
    have hfuel : (d.parameters.flatMap descriptorChars).length ≤
        (d.parameters.flatMap descriptorChars ++ ')' :: d.returns.descriptorChars).length := by simp
    have hread := read_descriptorChars hreturns []
    rw [List.append_nil] at hread
    simp only [hs, List.cons_append, readParameters_flatMap hts hfuel, hread]

end MethodDescriptor

/-- A text is read as a type exactly if it is the written form of one that fields may have, and of no other one;
likewise for the types of a method. -/
theorem parse_iff_descriptor (s : String) :
    (∀ t, FieldType.parse s = .ok t ↔ t.IsValue ∧ s = t.descriptor) ∧
    (∀ t u : FieldType, t.IsValue → u.IsValue → s = t.descriptor → s = u.descriptor → t = u) ∧
    (∀ d, MethodDescriptor.parse s = .ok d ↔ d.IsValid ∧ s = d.descriptor) ∧
    (∀ d e : MethodDescriptor, d.IsValid → e.IsValid → s = d.descriptor → s = e.descriptor → d = e) := by
  refine ⟨fun t => FieldType.parse_eq_ok, fun t u ht hu hst hsu => ?_, fun d => MethodDescriptor.parse_eq_ok,
    fun d e hd he hsd hse => ?_⟩
  · have hread := FieldType.parse_eq_ok.2 ⟨ht, hst⟩
    have hread' := FieldType.parse_eq_ok.2 ⟨hu, hsu⟩
    exact Except.ok.inj (hread.symm.trans hread')
  · have hread := MethodDescriptor.parse_eq_ok.2 ⟨hd, hsd⟩
    have hread' := MethodDescriptor.parse_eq_ok.2 ⟨he, hse⟩
    exact Except.ok.inj (hread.symm.trans hread')

end Jvm
