import Jvm.Fault
import Jvm.Instruction

/-!
# Stacks of words

The stack instructions count words, while a stack holds entries of one or two words. Stacks are lists
with the top in front. `takeWords` splits off the entries that make up a number of words and fails if
that would split an entry; the copies and `swap` are built on it.
-/

namespace Jvm

/-- Values that take up one or two words. -/
class HasWidth (α : Type) where
  width : α → Width

export HasWidth (width)

namespace Words

variable {α : Type} [HasWidth α]

/-- The entries on top that make up exactly `n` words, and the rest. -/
def takeWords (instruction : String) : Nat → List α → Except Fault (List α × List α)
  | 0, stack => .ok ([], stack)
  | _ + 1, [] => .error .stackUnderflow
  | n + 1, a :: rest =>
    if n + 1 < (width a).words then .error (.stackShape instruction)
    else
      match takeWords instruction (n + 1 - (width a).words) rest with
      | .ok (taken, rest) => .ok (a :: taken, rest)
      | .error f => .error f

theorem append_of_takeWords {instruction : String} {n : Nat} {stack taken rest : List α}
    (h : takeWords instruction n stack = .ok (taken, rest)) : stack = taken ++ rest := by
  induction stack generalizing n taken rest with
  | nil => cases n <;> simp_all [takeWords]
  | cons a below ih =>
    cases n with
    | zero => simp_all [takeWords]
    | succ n =>
      simp only [takeWords] at h
      split at h
      · simp at h
      · split at h
        · rename_i heq
          simp only [Except.ok.injEq, Prod.mk.injEq] at h
          rw [← h.1, ← h.2, ih heq, List.cons_append]
        · simp at h

/-- Each entry takes up at least one word. -/
theorem length_takeWords {instruction : String} {n : Nat} {stack taken rest : List α}
    (h : takeWords instruction n stack = .ok (taken, rest)) : taken.length ≤ n := by
  induction stack generalizing n taken rest with
  | nil => cases n <;> cases h; exact Nat.le_refl _
  | cons a below ih =>
    cases n with
    | zero => cases h; exact Nat.le_refl _
    | succ n =>
      have hpos : 1 ≤ (width a).words := by cases width a <;> decide
      simp only [takeWords] at h
      split at h
      · cases h
      split at h
      · rename_i htaken
        have := ih htaken
        cases h
        rw [List.length_cons]
        omega
      · cases h

/-- Copies the `top` words on top below the `under` words that follow them. -/
def dupWords (instruction : String) (top under : Nat) (stack : List α) : Except Fault (List α) :=
  match takeWords instruction top stack with
  | .error f => .error f
  | .ok (copied, below) =>
    match takeWords instruction under below with
    | .error f => .error f
    | .ok (skipped, rest) => .ok (copied ++ skipped ++ copied ++ rest)

/-- Exchanges two entries of one word each. -/
def swap : List α → Except Fault (List α)
  | a :: b :: rest =>
    if width a = .single ∧ width b = .single then .ok (b :: a :: rest)
    else .error (.stackShape "swap")
  | _ => .error .stackUnderflow

theorem length_dupWords {instruction : String} {top under : Nat} {stack copied below result : List α}
    (ht : takeWords instruction top stack = .ok (copied, below))
    (h : dupWords instruction top under stack = .ok result) :
    result.length = stack.length + copied.length := by
  simp only [dupWords, ht] at h
  split at h
  · simp at h
  · rename_i heq
    simp only [Except.ok.injEq] at h
    have h1 := append_of_takeWords ht
    have h2 := append_of_takeWords heq
    subst h
    simp only [h1, h2, List.length_append]
    omega

theorem length_swap {stack result : List α} (h : swap stack = .ok result) :
    result.length = stack.length := by
  unfold swap at h
  split at h
  · split at h
    · simp only [Except.ok.injEq] at h
      subst h
      simp
    · simp at h
  · simp at h

end Words

end Jvm
