import Jvm.MethodBody
import Mathlib.Data.List.Basic

/-!
# Branches that leave a body

A body is refused for its first stray branch (`strayBranch?_eq_some`), and accepted just if it has none
(`validate_iff`).
-/

namespace Jvm

namespace MethodBody

variable {b : MethodBody} {index target : Nat} {opcode : Opcode}

/-- The first branch that leaves the code is from the instruction at `index`. Of its targets `target` is the first
outside. -/
def Strays (code : List Instruction) (index : Nat) (opcode : Opcode) (target : Nat) : Prop :=
  ∃ before i after inside rest, code = before ++ i :: after ∧ index = before.length ∧ opcode = i.opcode ∧
    (∀ j ∈ before, ∀ t ∈ j.targets, t < code.length) ∧
    i.targets = inside ++ target :: rest ∧ (∀ t ∈ inside, t < code.length) ∧ code.length ≤ target

theorem find?_targets {i : Instruction} {size : Nat} : i.targets.find? (size ≤ ·) = some target ↔
    ∃ inside rest, i.targets = inside ++ target :: rest ∧ (∀ t ∈ inside, t < size) ∧ size ≤ target := by
  rw [List.find?_eq_some_iff_append]
  simp only [decide_eq_true_eq, Bool.not_eq_true', decide_eq_false_iff_not, Nat.not_le]
  exact ⟨fun ⟨hsize, inside, rest, heq, hinside⟩ => ⟨inside, rest, heq, hinside, hsize⟩,
    fun ⟨inside, rest, heq, hinside, hsize⟩ => ⟨hsize, inside, rest, heq, hinside⟩⟩

theorem strayBranch?_eq_some : b.strayBranch? = some (index, opcode, target) ↔
    Strays b.instructions.toList index opcode target := by
  have hnone : ∀ j : Instruction, j.targets.find? (b.size ≤ ·) = none ↔ ∀ t ∈ j.targets, t < b.size := by
    simp [List.find?_eq_none]
  have hsize : b.instructions.toList.length = b.size := rfl
  rw [strayBranch?, List.findSome?_eq_some_iff, Strays]
  simp only [hsize]
  constructor
  · rintro ⟨pairs, ⟨i, n⟩, pairs', heq, hfound, hbefore⟩
    obtain ⟨before, rest', hcode, rfl, hrest⟩ := List.zipIdx_eq_append_iff.1 heq
    obtain ⟨i', after, rfl, hi, -⟩ := List.zipIdx_eq_cons_iff.1 hrest.symm
    simp only [Prod.mk.injEq, Nat.zero_add] at hi
    obtain ⟨rfl, rfl⟩ := hi
    obtain ⟨target', htarget, hpair⟩ := Option.map_eq_some_iff.1 hfound
    simp only [Prod.mk.injEq] at hpair
    obtain ⟨rfl, rfl, rfl⟩ := hpair
    obtain ⟨inside, rest, htargets, hinside, hout⟩ := find?_targets.1 htarget
    refine ⟨before, i, after, inside, rest, hcode, rfl, rfl, fun j hj => (hnone j).1 ?_, htargets, hinside, hout⟩
    obtain ⟨n, hn⟩ := List.getElem?_of_mem hj
    simpa using hbefore (j, n) (List.mem_zipIdx_iff_getElem?.2 hn)
  · rintro ⟨before, i, after, inside, rest, hcode, rfl, rfl, hbefore, htargets, hinside, hout⟩
    refine ⟨before.zipIdx, (i, before.length), after.zipIdx (before.length + 1), ?_, ?_, ?_⟩
    · rw [hcode, List.zipIdx_append, List.zipIdx_cons, Nat.zero_add]
    · rw [find?_targets.2 ⟨inside, rest, htargets, hinside, hout⟩]
      rfl
    · rintro ⟨j, n⟩ hj
      have hmem : j ∈ before := (List.mem_zipIdx' hj).2 ▸ List.getElem_mem _
      simpa using hbefore j hmem

theorem validate_of_strays (h : Strays b.instructions.toList index opcode target) :
    b.validate = .error (.malformed (.branch index opcode target b.size)) := by
  rw [validate, strayBranch?_eq_some.2 h]

/-- A body is valid if no branch leaves it. -/
theorem validate_iff : b.validate = .ok () ↔
    ∀ (n : Nat) (i : Instruction), b.instructions[n]? = some i → ∀ t ∈ i.targets, t < b.size := by
  have hnone : b.validate = .ok () ↔ b.strayBranch? = none := by
    rw [validate]
    cases b.strayBranch? <;> simp
  rw [hnone, strayBranch?, List.findSome?_eq_none_iff]
  simp only [Prod.forall, Option.map_eq_none_iff, List.find?_eq_none, decide_eq_true_eq, Nat.not_le,
    List.mem_zipIdx_iff_getElem?, Array.getElem?_toList]
  exact ⟨fun h i n hi => h n i hi, fun h i n hi => h n i hi⟩

/-- A body with a stray branch has a first one. -/
theorem validate_or_strays (b : MethodBody) :
    (b.validate = .ok () ∧ ∀ i ∈ b.instructions.toList, ∀ t ∈ i.targets, t < b.size) ∨
      ∃ index opcode target, Strays b.instructions.toList index opcode target := by
  cases hstray : b.strayBranch? with
  | none =>
    have hvalid : b.validate = .ok () := by rw [validate, hstray]
    refine .inl ⟨hvalid, fun i hi => ?_⟩
    obtain ⟨n, hn⟩ := List.getElem?_of_mem hi
    exact validate_iff.1 hvalid n i (Array.getElem?_toList ▸ hn)
  | some stray =>
    obtain ⟨index, opcode, target⟩ := stray
    exact .inr ⟨index, opcode, target, strayBranch?_eq_some.1 hstray⟩

end MethodBody

end Jvm
