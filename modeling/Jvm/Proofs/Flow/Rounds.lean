import Jvm.Proofs.Flow.Typability

/-!
# How many visits the analysis makes

The search for a fixed point, without a bound on it: `Rounds` counts its visits up to the end, which is that nothing
is pending or that a visit fails. `analyze_ends`: every body has such an end, whatever its operands and targets are,
after a number of visits that is at most cubic in its length, and the analysis is that end and is never cut off.

What bounds the visits is `Progress.measure`. No order of frames has to be well-founded for it: a frame that differs
from itself, such as a literal that is not a number, or a call whose arguments have changed, is unknown after its
first meet, and then only its origins grow, which are instructions of the body.
-/

namespace Jvm.Flow

variable {owner : String} {code : Array Instruction}

/-- The search from `p` on makes so many visits, each of the first pending instruction, and comes to the result. -/
inductive Rounds (owner : String) (code : Array Instruction) : Nat → Progress → Except FlowError Progress → Prop
  | done {p : Progress} (hp : p.pending = []) : Rounds owner code 0 p (.ok p)
  | fails {p : Progress} {n : Nat} {rest : List Nat} {e : FlowError} (hp : p.pending = n :: rest)
      (he : visit owner code n { p with pending := rest } = .error e) : Rounds owner code 1 p (.error e)
  | visits {p q : Progress} {n k : Nat} {rest : List Nat} {r : Except FlowError Progress} (hp : p.pending = n :: rest)
      (hq : visit owner code n { p with pending := rest } = .ok q) (h : Rounds owner code k q r) :
      Rounds owner code (k + 1) p r

namespace Rounds

variable {p : Progress} {k k' : Nat} {r r' : Except FlowError Progress}

theorem unique (h : Rounds owner code k p r) (h' : Rounds owner code k' p r') : k = k' ∧ r = r' := by
  induction h generalizing k' r' with
  | done hp =>
    cases h' with
    | done => exact ⟨rfl, rfl⟩
    | fails hp' | visits hp' => cases hp.symm.trans hp'
  | fails hp he =>
    cases h' with
    | done hp' => cases hp.symm.trans hp'
    | fails hp' he' =>
      cases hp.symm.trans hp'
      cases he.symm.trans he'
      exact ⟨rfl, rfl⟩
    | visits hp' hq' =>
      cases hp.symm.trans hp'
      cases he.symm.trans hq'
  | visits hp hq _ ih =>
    cases h' with
    | done hp' => cases hp.symm.trans hp'
    | fails hp' he' =>
      cases hp.symm.trans hp'
      cases hq.symm.trans he'
    | visits hp' hq' h' =>
      cases hp.symm.trans hp'
      cases hq.symm.trans hq'
      obtain ⟨rfl, rfl⟩ := ih h'
      exact ⟨rfl, rfl⟩

/-- Fuel for one visit more than there are does not change what the search comes to. -/
theorem iterate_eq (h : Rounds owner code k p r) {fuel : Nat} (hfuel : k < fuel) : iterate owner code fuel p = r := by
  induction h generalizing fuel with
  | done hp =>
    obtain ⟨fuel, rfl⟩ : ∃ n, fuel = n + 1 := ⟨fuel - 1, by omega⟩
    simp only [iterate, hp]
  | fails hp he =>
    obtain ⟨fuel, rfl⟩ : ∃ n, fuel = n + 1 := ⟨fuel - 1, by omega⟩
    simp only [iterate, hp, he]
  | visits hp hq _ ih =>
    obtain ⟨fuel, rfl⟩ : ∃ n, fuel = n + 1 := ⟨fuel - 1, by omega⟩
    simp only [iterate, hp, hq]
    exact ih (by omega)

end Rounds

/-- The measure goes down with every visit, so it bounds their number. -/
theorem exists_rounds {p : Progress} (h : p.Ongoing owner code) :
    ∃ k r, Rounds owner code k p r ∧ k ≤ p.measure code.size := by
  induction hm : p.measure code.size using Nat.strong_induction_on generalizing p with
  | _ m ih =>
    cases hpending : p.pending with
    | nil => exact ⟨0, _, .done hpending, Nat.zero_le _⟩
    | cons n rest =>
      have hn : n ∈ p.pending := hpending ▸ List.mem_cons_self
      have hfirst : visit owner code n _ = _ := visitPending_first hpending
      cases hq : visit owner code n { p with pending := rest } with
      | error e =>
        have hpos : 0 < p.measure code.size := by
          simp only [Progress.measure, hpending, List.length_cons]
          omega
        exact ⟨1, _, .fails hpending hq, by omega⟩
      | ok q =>
        obtain ⟨hongoing, hless⟩ := ongoing_visits h ⟨n, hn, hfirst ▸ hq⟩
        obtain ⟨k, r, hrounds, hk⟩ := ih _ (hm ▸ hless) hongoing rfl
        exact ⟨k + 1, r, .visits hpending hq hrounds, by omega⟩

/-! ### What a visit fails with -/

/-- A failure of an instruction or of the place where stacks meet, if it is one. -/
def Genuine {α : Type} (x : Except FlowError α) : Prop := x ≠ .error .outOfFuel

section

variable {α β : Type} {e : FlowError}

@[simp] theorem genuine_ok (v : α) : Genuine (.ok v) := by simp [Genuine]

@[simp] theorem genuine_error : Genuine (.error e : Except FlowError α) ↔ e ≠ .outOfFuel := by simp [Genuine]

/-- What a part fails with, the whole may fail with. -/
theorem Genuine.passed {x : Except FlowError α} (h : Genuine x) (he : x = .error e) :
    Genuine (.error e : Except FlowError β) := by
  rw [he] at h
  exact genuine_error.2 (genuine_error.1 h)

end

theorem genuine_popN (n : Nat) (stack : List Frame) : Genuine (popN n stack) := by
  rw [popN]
  split <;> simp

theorem genuine_replace (n : Nat) (produced : Option Frame) (stack : List Frame) :
    Genuine (replace n produced stack) := by
  rw [replace]
  split
  · exact (genuine_popN n stack).passed ‹_›
  · simp

theorem genuine_located {α : Type} (n : Nat) (opcode : Opcode) (x : Except Fault α) :
    Genuine (located owner n opcode x) := by
  cases x <;> simp [located]

theorem genuine_rearrange {moved : Except FlowError (List Frame)} (h : Genuine moved) : Genuine (rearrange moved) := by
  cases moved with
  | error e => exact h.passed rfl
  | ok stack => exact genuine_ok _

theorem genuine_call (n : Nat) (static : Bool) (m : MemberRef) (stack : List Frame) :
    Genuine (call n static m stack) := by
  rw [call]
  split
  · simp
  · split
    · exact (genuine_popN _ stack).passed ‹_›
    · simp

theorem genuine_transfer (n : Nat) (i : Instruction) (stack : List Frame) : Genuine (transfer owner n i stack) := by
  obtain ⟨opcode, operand⟩ := i
  cases opcode <;> simp only [transfer]
  case bipush | sipush | ldc | load | newArray | multiNewArray | new =>
    split
    · exact genuine_replace _ _ _
    · simp
  case anewArray =>
    split
    · split
      · simp
      · exact genuine_replace _ _ _
    · simp
  case pop | pop2 =>
    simp only [reduceCtorEq, if_false, if_true]
    split
    · exact (genuine_located _ _ _).passed ‹_›
    · simp
  case dup | swap => exact genuine_rearrange (genuine_located _ _ _)
  case getStatic | getField =>
    simp only [reduceCtorEq, if_false, if_true]
    split
    · split
      · exact (genuine_popN _ stack).passed ‹_›
      · split <;> simp
    · simp
  case invoke =>
    split
    · exact genuine_call _ _ _ _
    · simp
  case invokeDynamic =>
    split
    · split
      · simp
      · exact genuine_replace _ _ _
    · simp
  case checkCast => cases stack <;> simp
  all_goals exact genuine_replace _ _ _

theorem genuine_follow (n : Nat) (opcode : Opcode) (p : Progress) (edge : Nat × List Frame) :
    Genuine (follow owner n opcode p edge) := by
  obtain ⟨target, stack⟩ := edge
  by_cases ht : target < p.incoming.size
  · rw [follow_eq ht]
    split
    · simp
    · unfold meetStacks
      split
      · rename_i e he
        split at he
        · cases he
          simp
        split at he <;> cases he
        simp
      · split <;> simp
  · simp [follow, ht]

theorem genuine_visit (n : Nat) (p : Progress) : Genuine (visit owner code n p) := by
  rw [visit]
  split
  · rename_i i stack _ _
    split
    · exact (genuine_transfer n i stack).passed ‹_›
    · rename_i e after _
      generalize ({ p with entries := p.entries.setIfInBounds n (some e) } : Progress) = q
      induction successors n i after generalizing q with
      | nil => exact genuine_ok _
      | cons edge edges ih =>
        have hfollow : Genuine (follow owner n i.opcode q edge) := genuine_follow n i.opcode q edge
        rw [List.foldlM_cons]
        cases hq : follow owner n i.opcode q edge with
        | error e => exact hfollow.passed hq
        | ok q' => exact ih q'
  · simp

theorem Rounds.genuine {p : Progress} {k : Nat} {r : Except FlowError Progress} (h : Rounds owner code k p r) :
    Genuine r := by
  induction h with
  | done => exact genuine_ok _
  | fails _ he => exact he ▸ genuine_visit _ _
  | visits _ _ _ ih => exact ih

/-! ### The analysis -/

theorem solve_eq_iterate (owner : String) (b : MethodBody) :
    solve owner b = iterate owner b.instructions (fuelFor b.size) (.start b.size) := by
  rw [solve]
  split
  · -- without instructions the only visit finds nothing
    rename_i hsize
    have hnone : b.instructions = #[] := Array.size_eq_zero_iff.1 hsize
    rw [hsize, hnone]
    rfl
  · rfl

/-- The analysis of every body ends: the search makes a number of visits that its length bounds, and then there is
nothing more to visit or a visit fails. This end is unique; it is what the analysis gives, and what any more fuel
would have given, too. -/
theorem analyze_ends (owner : String) (b : MethodBody) : ∃ visits r, visits < fuelFor b.size ∧
    (∀ k r', Rounds owner b.instructions k (.start b.size) r' ↔ k = visits ∧ r' = r) ∧
    (∀ fuel, visits < fuel → iterate owner b.instructions fuel (.start b.size) = r) ∧
    analyze owner b = r.map (fun p => ⟨p.entries⟩) ∧ analyze owner b ≠ .error .outOfFuel := by
  have hongoing : (Progress.start b.size).Ongoing owner b.instructions := ongoing_start
  have hmeasure : (Progress.start b.size).measure b.size < fuelFor b.size := measure_start
  obtain ⟨visits, r, hrounds, hle⟩ := exists_rounds hongoing
  have hless : visits < fuelFor b.size := Nat.lt_of_le_of_lt hle hmeasure
  have hanalyze : analyze owner b = r.map (fun p => ⟨p.entries⟩) := by
    rw [analyze, solve_eq_iterate, hrounds.iterate_eq hless]
  refine ⟨visits, r, hless, fun k r' => ⟨fun h => h.unique hrounds, ?_⟩, fun fuel => hrounds.iterate_eq, hanalyze, ?_⟩
  · rintro ⟨rfl, rfl⟩
    exact hrounds
  · have hgenuine := hrounds.genuine
    rw [hanalyze]
    cases r with
    | error e => exact hgenuine.passed rfl
    | ok p => exact genuine_ok _

end Jvm.Flow
