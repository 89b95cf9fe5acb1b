import Jvm.Proofs.Machine.Hierarchy

/-!
# The names above a class, and the method found there

`resolves_among_ancestors`: the search from a class comes to an end and visits each name above the class once, the
superclasses first. So the method found is that of the nearest superclass with one, and one of an interface, or of
what stands above an interface, only if no superclass has one.

The search is told without a bound on its rounds (`Searched`); its three cases are those of a round, and what is
known of the result follows by induction on it. That superclasses come first holds since a class puts its superclass
in front of all names that wait: while the search climbs, what has been seen is what it climbed over
(`SuperChain.prefix_of_searched`).
-/

namespace Jvm

namespace ClassDictionary

open Relation (ReflTransGen)

variable {d : ClassDictionary} {c name above descriptor owner : String} {pending seen below chain result : List String}
  {found : ClassFile} {i : Nat}

/-- `above` is the superclass of a class of the program, or one of its interfaces. -/
def Inherits (d : ClassDictionary) (name above : String) : Prop :=
  ∃ c, d.get? name = some c ∧ (c.superName = some above ∨ above ∈ c.interfaces)

/-- `above` is the class itself or stands above it. -/
abbrev Reaches (d : ClassDictionary) (name above : String) : Prop := ReflTransGen d.Inherits name above

theorem mem_parents : above ∈ d.parents name ↔ d.Inherits name above := by
  unfold parents Inherits
  cases hc : d.get? name with
  | none => simp
  | some c => simp

def super? (d : ClassDictionary) (name : String) : Option String := (d.get? name).bind ClassFile.superName

theorem parents_of_super? (h : d.super? name = some above) : ∃ interfaces, d.parents name = above :: interfaces := by
  obtain ⟨c, hc, hsuper⟩ := Option.bind_eq_some_iff.1 h
  exact ⟨c.interfaces, by simp [parents, hc, hsuper]⟩

/-- The names from `name` upwards, each the superclass of the one before, up to one without a superclass or with
one that came before. -/
inductive SuperChain (d : ClassDictionary) : List String → String → List String → Prop
  | top {below : List String} {name : String} (h : d.super? name = none) : SuperChain d below name [name]
  | again {below : List String} {name above : String} (h : d.super? name = some above)
      (hseen : above ∈ name :: below) : SuperChain d below name [name]
  | up {below chain : List String} {name above : String} (h : d.super? name = some above)
      (hnew : above ∉ name :: below) (hchain : SuperChain d (name :: below) above chain) :
      SuperChain d below name (name :: chain)

/-! ### The search without a bound -/

/-- Depth-first search, until no name is pending. -/
inductive Searched (d : ClassDictionary) : List String → List String → List String → Prop
  | done {seen : List String} : Searched d [] seen seen.reverse
  | skip {name : String} {pending seen result : List String} (hseen : name ∈ seen)
      (h : Searched d pending seen result) : Searched d (name :: pending) seen result
  | visit {name : String} {pending seen result : List String} (hnew : name ∉ seen)
      (h : Searched d (d.parents name ++ pending) (name :: seen) result) : Searched d (name :: pending) seen result

/-- With enough rounds the search goes on until no name is pending. -/
theorem searched_search {fuel : Nat} (h : d.rounds pending seen < fuel) :
    d.Searched pending seen (d.search fuel pending seen) := by
  induction fuel generalizing pending seen with
  | zero => omega
  | succ fuel ih =>
    cases pending with
    | nil => exact .done
    | cons name pending =>
      simp only [search, List.contains_iff_mem]
      split
      · rename_i hseen
        have hrounds : d.rounds (name :: pending) seen = d.rounds pending seen + 1 := by
          simp only [rounds, List.length_cons]
          omega
        exact .skip hseen (ih (by omega))
      · rename_i hnew
        have hrounds : d.rounds (d.parents name ++ pending) (name :: seen) < d.rounds (name :: pending) seen :=
          rounds_visit hnew
        exact .visit hnew (ih (by omega))

theorem searched_ancestors (d : ClassDictionary) (name : String) : d.Searched [name] [] (d.ancestors name) := by
  rw [← search_ancestors (Nat.le_max_left d.searchFuel (d.rounds [name] [] + 1))]
  exact searched_search (Nat.lt_of_lt_of_le (Nat.lt_succ_self _) (Nat.le_max_right _ _))

namespace Searched

/-- There is only one way to search. -/
theorem unique {result' : List String} (h : d.Searched pending seen result) (h' : d.Searched pending seen result') :
    result = result' := by
  induction h with
  | done =>
    cases h'
    rfl
  | skip hseen _ ih =>
    cases h' with
    | skip _ h' => exact ih h'
    | visit hnew _ => exact absurd hseen hnew
  | visit hnew _ ih =>
    cases h' with
    | skip hseen _ => exact absurd hseen hnew
    | visit _ h' => exact ih h'

theorem reverse_prefix (h : d.Searched pending seen result) : seen.reverse <+: result := by
  induction h with
  | done => exact List.prefix_rfl
  | skip _ _ ih => exact ih
  | visit _ _ ih =>
    rw [List.reverse_cons] at ih
    exact (List.prefix_append _ _).trans ih

theorem nodup (h : d.Searched pending seen result) (hseen : seen.Nodup) : result.Nodup := by
  induction h with
  | done => exact List.nodup_reverse.2 hseen
  | skip _ _ ih => exact ih hseen
  | visit hnew _ ih => exact ih (List.nodup_cons.2 ⟨hnew, hseen⟩)

theorem pending_subset (h : d.Searched pending seen result) : ∀ n ∈ pending, n ∈ result := by
  induction h with
  | done => nofun
  | skip hseen h ih =>
    intro n hn
    rcases List.mem_cons.1 hn with rfl | hn
    · exact h.reverse_prefix.subset (List.mem_reverse.2 hseen)
    · exact ih n hn
  | @visit name pending seen result _ h ih =>
    intro n hn
    rcases List.mem_cons.1 hn with rfl | hn
    · exact h.reverse_prefix.subset (List.mem_reverse.2 List.mem_cons_self)
    · exact ih n (List.mem_append_right _ hn)

/-- Nothing is found but what is above a pending name. -/
theorem reaches (h : d.Searched pending seen result) : ∀ n ∈ result, n ∈ seen ∨ ∃ p ∈ pending, d.Reaches p n := by
  induction h with
  | done => exact fun n hn => .inl (List.mem_reverse.1 hn)
  | skip _ _ ih =>
    intro n hn
    rcases ih n hn with hn | ⟨p, hp, hreach⟩
    · exact .inl hn
    · exact .inr ⟨p, List.mem_cons_of_mem _ hp, hreach⟩
  | @visit name pending seen result _ _ ih =>
    intro n hn
    rcases ih n hn with hn | ⟨p, hp, hreach⟩
    · rcases List.mem_cons.1 hn with rfl | hn
      · exact .inr ⟨n, List.mem_cons_self, .refl⟩
      · exact .inl hn
    · rcases List.mem_append.1 hp with hp | hp
      · exact .inr ⟨name, List.mem_cons_self, .head (mem_parents.1 hp) hreach⟩
      · exact .inr ⟨p, List.mem_cons_of_mem _ hp, hreach⟩

/-- What is directly above a name that was found is found, too. -/
theorem closed (h : d.Searched pending seen result)
    (hseen : ∀ n ∈ seen, ∀ above, d.Inherits n above → above ∈ seen ∨ above ∈ pending) :
    ∀ n ∈ result, ∀ above, d.Inherits n above → above ∈ result := by
  induction h with
  | done =>
    intro n hn above habove
    rcases hseen n (List.mem_reverse.1 hn) above habove with hmem | hmem
    · exact List.mem_reverse.2 hmem
    · cases hmem
  | @skip name pending seen result hname _ ih =>
    refine ih fun n hn above habove => ?_
    rcases hseen n hn above habove with hmem | hmem
    · exact .inl hmem
    · rcases List.mem_cons.1 hmem with rfl | hmem
      · exact .inl hname
      · exact .inr hmem
  | @visit name pending seen result _ _ ih =>
    refine ih fun n hn above habove => ?_
    rcases List.mem_cons.1 hn with rfl | hn
    · exact .inr (List.mem_append_left _ (mem_parents.2 habove))
    · rcases hseen n hn above habove with hmem | hmem
      · exact .inl (List.mem_cons_of_mem _ hmem)
      · rcases List.mem_cons.1 hmem with rfl | hmem
        · exact .inl List.mem_cons_self
        · exact .inr (List.mem_append_right _ hmem)

end Searched

/-! ### Superclasses first -/

/-- As long as the search climbs from superclass to superclass, it has seen what it climbed over and no more. -/
theorem SuperChain.prefix_of_searched (h : d.SuperChain below name chain) (hnew : name ∉ below)
    (hsearched : d.Searched (name :: pending) below result) : below.reverse ++ chain <+: result := by
  induction h generalizing pending with
  | top | again =>
    cases hsearched with
    | skip hseen => exact absurd hseen hnew
    | visit _ h => exact List.reverse_cons ▸ h.reverse_prefix
  | @up below chain name above hsuper hnew' _ ih =>
    cases hsearched with
    | skip hseen => exact absurd hseen hnew
    | visit _ h =>
      obtain ⟨interfaces, hparents⟩ := parents_of_super? hsuper
      rw [hparents, List.cons_append] at h
      have hprefix := ih hnew' h
      rwa [List.reverse_cons, List.append_assoc, List.singleton_append] at hprefix

/-- As the search ends, so does the chain of superclasses. -/
theorem Searched.exists_superChain (h : d.Searched pending seen result) :
    ∀ name rest, pending = name :: rest → name ∉ seen → ∃ chain, d.SuperChain seen name chain := by
  induction h with
  | done => nofun
  | skip hseen =>
    rintro name rest heq hnew
    cases heq
    exact absurd hseen hnew
  | @visit name pending seen result _ _ ih =>
    rintro name rest heq -
    cases heq
    cases hsuper : d.super? name with
    | none => exact ⟨_, .top hsuper⟩
    | some above =>
      by_cases hmem : above ∈ name :: seen
      · exact ⟨_, .again hsuper hmem⟩
      · obtain ⟨interfaces, hparents⟩ := parents_of_super? hsuper
        obtain ⟨chain, hchain⟩ := ih above (interfaces ++ pending) (by rw [hparents, List.cons_append]) hmem
        exact ⟨_, .up hsuper hmem hchain⟩

/-! ### All names above a name -/

theorem nodup_ancestors (d : ClassDictionary) (name : String) : (d.ancestors name).Nodup :=
  (searched_ancestors d name).nodup List.nodup_nil

theorem mem_ancestors : above ∈ d.ancestors name ↔ d.Reaches name above := by
  have hsearched := searched_ancestors d name
  have hclosed := hsearched.closed nofun
  constructor
  · intro h
    rcases hsearched.reaches above h with hseen | ⟨p, hp, hreach⟩
    · cases hseen
    · rwa [List.mem_singleton.1 hp] at hreach
  · intro h
    induction h with
    | refl => exact hsearched.pending_subset name List.mem_cons_self
    | tail _ hstep ih => exact hclosed _ ih _ hstep

theorem isSubtype_iff : d.isSubtype name above = true ↔ d.Reaches name above := by
  rw [isSubtype, List.contains_iff_mem, mem_ancestors]

theorem exists_superChain (d : ClassDictionary) (name : String) : ∃ chain, d.SuperChain [] name chain :=
  (searched_ancestors d name).exists_superChain name [] rfl List.not_mem_nil

theorem SuperChain.prefix_ancestors (h : d.SuperChain [] name chain) : chain <+: d.ancestors name :=
  h.prefix_of_searched List.not_mem_nil (searched_ancestors d name)

theorem SuperChain.head? (h : d.SuperChain below name chain) : chain.head? = some name := by
  cases h <;> rfl

theorem head?_ancestors (d : ClassDictionary) (name : String) : (d.ancestors name).head? = some name := by
  obtain ⟨chain, hchain⟩ := exists_superChain d name
  obtain ⟨rest, hrest⟩ := hchain.prefix_ancestors
  rw [← hrest, List.head?_append, hchain.head?, Option.some_or]

/-! ### Methods with code -/

/-- The class `above` has code in its first method of that name and descriptor, which is at place `i`. -/
structure Provides (d : ClassDictionary) (name descriptor above : String) (c : ClassFile) (i : Nat) : Prop where
  class_eq : d.get? above = some c
  method : ∃ m, c.methods[i]? = some m ∧ m.name = name ∧ m.descriptor = descriptor ∧ m.body.isSome = true
  first : ∀ j < i, ∀ m, c.methods[j]? = some m → ¬ (m.name = name ∧ m.descriptor = descriptor)

theorem methodWithBody?_eq_some :
    d.methodWithBody? above name descriptor = some (found, i) ↔ d.Provides name descriptor above found i := by
  simp only [methodWithBody?, Option.bind_eq_bind, Option.bind_eq_some_iff]
  constructor
  · rintro ⟨c, hc, j, hj, m, hm, hbody⟩
    rw [Option.ite_none_right_eq_some] at hbody
    obtain ⟨hbody, heq⟩ := hbody
    cases heq
    obtain ⟨hlt, hmatch, hfirst⟩ := List.findIdx?_eq_some_iff_getElem.1 hj
    obtain rfl : found.methods[i] = m := by simpa [List.getElem?_eq_getElem hlt] using hm
    simp only [Bool.and_eq_true, beq_iff_eq] at hmatch
    refine ⟨hc, ⟨_, hm, hmatch.1, hmatch.2, hbody⟩, fun k hk m hm hboth => ?_⟩
    obtain ⟨hlt', rfl⟩ := List.getElem?_eq_some_iff.1 hm
    exact hfirst k hk (by simpa using hboth)
  · rintro ⟨hc, ⟨m, hm, hname, hdescriptor, hbody⟩, hfirst⟩
    obtain ⟨hlt, rfl⟩ := List.getElem?_eq_some_iff.1 hm
    refine ⟨found, hc, i, List.findIdx?_eq_some_iff_getElem.2 ⟨hlt, by simp [hname, hdescriptor], fun j hj => ?_⟩,
      _, hm, by rw [if_pos hbody]⟩
    simpa using hfirst j hj _ (List.getElem?_eq_getElem _)

/-- The class provides no such method. -/
def ProvidesNone (d : ClassDictionary) (name descriptor above : String) : Prop :=
  ∀ c i, ¬ d.Provides name descriptor above c i

theorem methodWithBody?_eq_none :
    d.methodWithBody? above name descriptor = none ↔ d.ProvidesNone name descriptor above := by
  simp only [ProvidesNone, ← methodWithBody?_eq_some, Option.eq_none_iff_forall_ne_some, Prod.forall, ne_eq]

/-- The method of a call is that of the nearest superclass that provides one, and otherwise that of another name
above. -/
structure Nearest (d : ClassDictionary) (owner name descriptor : String) (chain : List String) : Prop where
  /-- The superclasses up to the first that provides the method. -/
  climbs : ∀ below above rest c i, chain = below ++ above :: rest →
    (∀ n ∈ below, d.ProvidesNone name descriptor n) → d.Provides name descriptor above c i →
    d.resolveMethod? owner name descriptor = some (c, i)
  /-- What is not found in a superclass is found above one, and all superclasses lack it. -/
  outside : ∀ c i, d.resolveMethod? owner name descriptor = some (c, i) →
    d.Reaches owner c.name ∧ d.Provides name descriptor c.name c i ∧
      (c.name ∉ chain → ∀ n ∈ chain, d.ProvidesNone name descriptor n)
  none_iff : d.resolveMethod? owner name descriptor = none ↔
    ∀ above, d.Reaches owner above → d.ProvidesNone name descriptor above

theorem SuperChain.nearest (h : d.SuperChain [] owner chain) (name descriptor : String) :
    d.Nearest owner name descriptor chain := by
  obtain ⟨rest, hrest⟩ := h.prefix_ancestors
  refine ⟨?_, ?_, ?_⟩
  · rintro below above chain c i rfl hbelow habove
    have hskip : below.findSome? (d.methodWithBody? · name descriptor) = none :=
      List.findSome?_eq_none_iff.2 fun n hn => methodWithBody?_eq_none.2 (hbelow n hn)
    rw [resolveMethod?, ← hrest, List.append_assoc, List.findSome?_append, hskip, Option.none_or, List.cons_append,
      List.findSome?_cons, methodWithBody?_eq_some.2 habove]
  · intro c i hfound
    obtain ⟨below, above, more, hancestors, habove, hbelow⟩ := List.findSome?_eq_some_iff.1 hfound
    have hprovides := methodWithBody?_eq_some.1 habove
    obtain ⟨-, rfl⟩ := name_of_get? hprovides.class_eq
    have hmem : c.name ∈ d.ancestors owner := by simp [hancestors]
    refine ⟨mem_ancestors.1 hmem, hprovides, fun hout n hn => methodWithBody?_eq_none.1 (hbelow n ?_)⟩
    -- the chain comes first and the class is not in it, so all of the chain has been passed
    rw [← hrest] at hancestors
    rcases List.append_eq_append_iff.1 hancestors with ⟨passed, rfl, -⟩ | ⟨passed, rfl, hpassed⟩
    · exact List.mem_append_left _ hn
    · cases passed with
      | nil => simpa using hn
      | cons first passed =>
        obtain ⟨rfl, -⟩ := List.cons.inj hpassed
        exact absurd (by simp) hout
  · rw [resolveMethod?, List.findSome?_eq_none_iff]
    simp only [mem_ancestors, methodWithBody?_eq_none]

/-- The search for all names above a class comes to an end, with one result, that has each of them once; the class
and its superclasses are in front, and so the method of a call is found in the nearest class. -/
theorem resolves_among_ancestors (d : ClassDictionary) (owner : String) :
    (∀ result, d.Searched [owner] [] result ↔ result = d.ancestors owner) ∧
    (d.ancestors owner).Nodup ∧ (d.ancestors owner).head? = some owner ∧
    (∀ above, above ∈ d.ancestors owner ↔ d.Reaches owner above) ∧
    (∃ chain, d.SuperChain [] owner chain) ∧
    ∀ chain, d.SuperChain [] owner chain → chain <+: d.ancestors owner ∧
      ∀ name descriptor, d.Nearest owner name descriptor chain := by
  have hsearched := searched_ancestors d owner
  refine ⟨fun result => ⟨fun h => h.unique hsearched, fun h => h ▸ hsearched⟩, nodup_ancestors d owner,
    head?_ancestors d owner, fun above => mem_ancestors, exists_superChain d owner, fun chain hchain => ?_⟩
  exact ⟨hchain.prefix_ancestors, hchain.nearest⟩

end ClassDictionary

end Jvm
