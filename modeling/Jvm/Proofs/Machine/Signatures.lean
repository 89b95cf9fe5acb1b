import Jvm.Library

/-!
# Signatures of the library

No native method ends in the descriptor of a decryptor (`lacks_library`), so that a call with that
descriptor is answered by the program or not at all. Signatures are compared as lists of characters.
-/

namespace Jvm.Library

/-- No signature ends in the characters. -/
def Lacks (suffix : List Char) (ms : List NativeMethod) : Prop :=
  ∀ m ∈ ms, ∃ cs, m.signature = String.ofList cs ∧ suffix.isSuffixOf cs = false

namespace Lacks

variable {suffix : List Char} {m : NativeMethod} {ms ns : List NativeMethod}

theorem nil : Lacks suffix [] := nofun

theorem cons {cs : List Char} (h : m.signature = String.ofList cs) (hcs : suffix.isSuffixOf cs = false)
    (hms : Lacks suffix ms) : Lacks suffix (m :: ms) := by
  intro n hn
  rcases List.mem_cons.1 hn with rfl | hn
  · exact ⟨cs, h, hcs⟩
  · exact hms n hn

/-- A signature in two parts. -/
theorem joined {as bs : List Char} (h : m.signature = String.ofList as ++ String.ofList bs)
    (hcs : suffix.isSuffixOf (as ++ bs) = false) (hms : Lacks suffix ms) : Lacks suffix (m :: ms) :=
  cons (h.trans String.ofList_append.symm) hcs hms

theorem append (hms : Lacks suffix ms) (hns : Lacks suffix ns) : Lacks suffix (ms ++ ns) := by
  intro m hm
  rcases List.mem_append.1 hm with hm | hm
  · exact hms m hm
  · exact hns m hm

theorem flatMap {α : Type} {f : α → List NativeMethod} (hf : ∀ x, Lacks suffix (f x)) (xs : List α) :
    Lacks suffix (xs.flatMap f) := by
  intro m hm
  obtain ⟨x, -, hm⟩ := List.mem_flatMap.1 hm
  exact hf x m hm

end Lacks

/-- From a string to a string. -/
def textToText : List Char :=
  ['(', 'L', 'j', 'a', 'v', 'a', '/', 'l', 'a', 'n', 'g', '/', 'S', 't', 'r', 'i', 'n', 'g', ';', ')',
    'L', 'j', 'a', 'v', 'a', '/', 'l', 'a', 'n', 'g', '/', 'S', 't', 'r', 'i', 'n', 'g', ';']

theorem lacks_library : Lacks textToText Catalog.library.methods := by
  have hthrowables : Lacks textToText throwableMethods := by
    refine (Lacks.flatMap (fun owner => ?_) _).append ?_
    all_goals
      repeat' refine Lacks.cons rfl (by decide) ?_
      exact .nil
  refine .append (.append (.append (.append (.append (.append (.append (.append ?_ ?_) ?_) hthrowables) ?_) ?_)
    ?_) ?_) ?_
  all_goals
    repeat' first | refine Lacks.cons rfl (by decide) ?_ | refine Lacks.joined rfl (by decide) ?_
    exact .nil

/-- Nothing in the library answers a call that turns a string into a string. -/
theorem contains_textToText (owner name : String) :
    Catalog.library.contains owner (name ++ "(Ljava/lang/String;)Ljava/lang/String;") = false := by
  have htext : "(Ljava/lang/String;)Ljava/lang/String;".toList = textToText := String.toList_ofList
  rw [Catalog.contains, Option.isSome_eq_false_iff, Option.isNone_iff_eq_none, Catalog.find?,
    List.find?_eq_none]
  intro m hm h
  obtain ⟨cs, hcs, hsuffix⟩ := lacks_library m hm
  simp only [Bool.and_eq_true, beq_iff_eq] at h
  have hlist : cs = name.toList ++ textToText := by
    rw [← String.toList_ofList (l := cs), ← hcs, h.2, String.toList_append, htext]
  rw [hlist, List.isSuffixOf_iff_suffix.2 (List.suffix_append _ _)] at hsuffix
  cases hsuffix

end Jvm.Library
