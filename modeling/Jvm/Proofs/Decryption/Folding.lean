import Jvm.Proofs.Decryption.Removal
import Jvm.Proofs.Decryption.Sites

/-!
# Folding keeps what every instruction does

`image` says what an operand of a body is once its folds are applied: the literal of a site and the
result of its call are both the plain text, and all others only get a new place. A kept instruction does
to the images what it did to the operands (`symbolic_image`).
-/

namespace Jvm

namespace Instruction

theorem stackEffect?_retarget (f : Nat → Nat) (i : Instruction) :
    (i.retarget f).stackEffect? = i.stackEffect? := by
  obtain ⟨opcode, operand⟩ := i
  cases operand
  case jump | table | lookup => cases opcode <;> rfl
  all_goals rfl

theorem symbolic?_retarget (f : Nat → Nat) (i : Instruction) (n : Nat) (σ : List Tagged) :
    (i.retarget f).symbolic? n σ = i.symbolic? n σ := by
  rw [symbolic?, symbolic?, stackEffect?_retarget]

end Instruction

/-- The operand is one that its instruction makes. -/
def Tagged.Made (code : Array Instruction) (x : Tagged) : Prop :=
  ∃ i effect, code[x.source]? = some i ∧ i.stackEffect? = some effect ∧ effect.pushed? = some x.value

theorem made_symbolic {code : Array Instruction} {n : Nat} {i : Instruction} {σ taken after : List Tagged}
    (hi : code[n]? = some i) (hx : i.symbolic? n σ = some (taken, after))
    (hσ : ∀ x ∈ σ, x.Made code) : (∀ x ∈ taken, x.Made code) ∧ ∀ x ∈ after, x.Made code := by
  rw [Instruction.symbolic?, Option.bind_eq_some_iff] at hx
  obtain ⟨effect, heffect, hrun⟩ := hx
  exact StackEffect.run?_all (fun p hp => ⟨i, effect, hi, heffect, hp⟩) hσ hrun

theorem Trace.made {code : Array Instruction} {path : List Nat} {n : Nat} {σ : List Tagged}
    (h : Trace code path n σ) : ∀ x ∈ σ, x.Made code := by
  induction h with
  | start => simp
  | branch _ hi hx _ ih => exact (made_symbolic hi hx ih).2
  | next _ hi hx _ ih =>
    intro x hmem
    refine (made_symbolic hi hx ih).2 x ?_
    rw [Instruction.fallen] at hmem
    split at hmem
    · exact List.mem_of_mem_drop hmem
    · exact hmem

namespace Decryption

/-- The calls that go. -/
abbrev calls (folds : List Fold) : List Nat := folds.map Fold.call

/-- The plain text in the place of the literal. -/
def Fold.planted (folds : List Fold) (f : Fold) : Tagged :=
  ⟨renumber (calls folds) f.literal, ⟨.single, some (.string f.plain)⟩⟩

/-- What an operand is after the folds. -/
def image (folds : List Fold) (x : Tagged) : Tagged :=
  match folds.find? fun f => f.literal = x.source ∨ f.call = x.source with
  | some f => f.planted folds
  | none => ⟨renumber (calls folds) x.source, x.value⟩

/-- A path without the calls that go. -/
def keptPath (folds : List Fold) (path : List Nat) : List Nat :=
  (path.filter (· ∉ calls folds)).map (renumber (calls folds))

/-- The folds of an accepted body and what they leave. -/
structure Folding (owner : String) (b b' : MethodBody) (a : Analysis) (folds : List Fold) : Prop where
  accepted : Flow.analyze owner b = .ok a
  sites : ∀ f ∈ folds, f.Site b.instructions a
  ordered : (calls folds).Pairwise (· < ·)
  applied : Without (calls folds) (Fold.plantAll folds b.instructions) b'.instructions

namespace Folding

variable {owner : String} {b b' : MethodBody} {a : Analysis} {folds : List Fold} {f g : Fold}

theorem distinct (h : Folding owner b b' a folds) : folds.Pairwise fun f g => f.literal ≠ g.literal :=
  distinct_folds h.sites h.ordered

theorem eq_of_literal (h : Folding owner b b' a folds) (hf : f ∈ folds) (hg : g ∈ folds)
    (heq : f.literal = g.literal) : f = g :=
  List.inj_on_of_nodup_map (List.pairwise_map.2 h.distinct) hf hg heq

theorem eq_of_call (h : Folding owner b b' a folds) (hf : f ∈ folds) (hg : g ∈ folds)
    (heq : f.call = g.call) : f = g :=
  List.inj_on_of_nodup_map (h.ordered.imp Nat.ne_of_lt) hf hg heq

theorem literal_ne_call (h : Folding owner b b' a folds) (hf : f ∈ folds) (hg : g ∈ folds) :
    f.literal ≠ g.call := by
  intro heq
  obtain ⟨text, hload⟩ := (h.sites f hf).literal
  obtain ⟨i, kind, m, hcall, rfl, -⟩ := (h.sites g hg).call
  rw [heq, hcall] at hload
  cases hload

theorem literal_kept (h : Folding owner b b' a folds) (hf : f ∈ folds) : f.literal ∉ calls folds := by
  intro hmem
  obtain ⟨g, hg, heq⟩ := List.mem_map.1 hmem
  exact h.literal_ne_call hf hg heq.symm

/-! ### Images -/

theorem image_site (h : Folding owner b b' a folds) (hf : f ∈ folds) {x : Tagged}
    (hx : x.source = f.literal ∨ x.source = f.call) : image folds x = f.planted folds := by
  rw [image]
  cases hfind : folds.find? fun f => f.literal = x.source ∨ f.call = x.source with
  | none =>
    have hne := List.find?_eq_none.1 hfind f hf
    simp only [decide_eq_true_eq, not_or] at hne
    rcases hx with hx | hx
    · exact absurd hx.symm hne.1
    · exact absurd hx.symm hne.2
  | some g =>
    have hg := List.mem_of_find?_eq_some hfind
    have hsource := List.find?_some hfind
    simp only [decide_eq_true_eq] at hsource
    suffices hfg : f = g by rw [hfg]
    rcases hx with hx | hx <;> rcases hsource with hs | hs
    · exact h.eq_of_literal hf hg (hx.symm.trans hs.symm)
    · exact absurd (hx.symm.trans hs.symm) (h.literal_ne_call hf hg)
    · exact absurd (hs.trans hx) (h.literal_ne_call hg hf)
    · exact h.eq_of_call hf hg (hx.symm.trans hs.symm)

theorem image_other {x : Tagged} (hx : ∀ f ∈ folds, x.source ≠ f.literal ∧ x.source ≠ f.call) :
    image folds x = ⟨renumber (calls folds) x.source, x.value⟩ := by
  rw [image, List.find?_eq_none.2]
  intro f hf
  simp only [decide_eq_true_eq, not_or]
  exact ⟨(hx f hf).1.symm, (hx f hf).2.symm⟩

theorem source_cases (folds : List Fold) (n : Nat) :
    (∃ f ∈ folds, n = f.literal ∨ n = f.call) ∨ ∀ f ∈ folds, n ≠ f.literal ∧ n ≠ f.call := by
  by_cases hn : ∃ f ∈ folds, n = f.literal ∨ n = f.call
  · exact .inl hn
  · refine .inr fun f hf => ?_
    simp only [not_exists, not_and, not_or] at hn
    exact hn f hf

/-- An operand keeps its words. -/
theorem width_image (h : Folding owner b b' a folds) {x : Tagged} (hx : x.Made b.instructions) :
    width (image folds x) = width x := by
  rcases source_cases folds x.source with ⟨f, hf, hsource⟩ | hother
  · rw [h.image_site hf hsource]
    obtain ⟨i, effect, hi, heffect, hpushed⟩ := hx
    obtain ⟨n, value⟩ := x
    change Width.single = value.width
    rcases hsource with hs | hs
    · obtain ⟨text, hload⟩ := (h.sites f hf).literal
      dsimp only at hs hi hpushed
      rw [hs, hload] at hi
      cases hi
      cases heffect
      cases hpushed
      rfl
    · obtain ⟨j, kind, m, hcall, -, hj⟩ := (h.sites f hf).call
      dsimp only at hs hi hpushed
      rw [hs, hcall] at hi
      cases hi
      rw [hj] at heffect
      cases heffect
      cases hpushed
      rfl
  · rw [image_other hother]
    rfl

/-! ### Kept instructions -/

theorem kept_literal (h : Folding owner b b' a folds) (hf : f ∈ folds) :
    b'.instructions[renumber (calls folds) f.literal]? = some ⟨.ldc, .const (.string f.plain)⟩ := by
  obtain ⟨text, hload⟩ := (h.sites f hf).literal
  refine h.applied.kept f.literal ⟨.ldc, .const (.string f.plain)⟩ (h.literal_kept hf) ?_
  rw [Fold.plantAll_literal hf h.distinct, hload]
  rfl

theorem kept_other (h : Folding owner b b' a folds) {n : Nat} {i : Instruction} (hn : n ∉ calls folds)
    (hl : ∀ f ∈ folds, f.literal ≠ n) (hi : b.instructions[n]? = some i) :
    b'.instructions[renumber (calls folds) n]? = some (i.retarget (renumber (calls folds))) :=
  h.applied.kept n i hn ((Fold.plantAll_ne hl).trans hi)

/-- `y` is the image of the operand `x` of a body. -/
def IsImage (folds : List Fold) (code : Array Instruction) (x y : Tagged) : Prop :=
  y = image folds x ∧ x.Made code

theorem eq_map_image {code : Array Instruction} {σ τ : List Tagged}
    (h : List.Forall₂ (IsImage folds code) σ τ) : τ = σ.map (image folds) := by
  induction h with
  | nil => rfl
  | cons hxy _ ih => rw [List.map_cons, ← hxy.1, ih]

/-- A kept instruction does to the images what it did to the operands. -/
theorem symbolic_image (h : Folding owner b b' a folds) {n : Nat} {i : Instruction}
    {σ taken after : List Tagged} (hn : n ∉ calls folds) (hi : b.instructions[n]? = some i)
    (hσ : ∀ x ∈ σ, x.Made b.instructions) (hx : i.symbolic? n σ = some (taken, after)) :
    ∃ i', b'.instructions[renumber (calls folds) n]? = some i' ∧ i'.opcode = i.opcode ∧
      i'.targets = i.targets.map (renumber (calls folds)) ∧
      i'.symbolic? (renumber (calls folds) n) (σ.map (image folds))
        = some (taken.map (image folds), after.map (image folds)) := by
  by_cases hl : ∃ f ∈ folds, f.literal = n
  · obtain ⟨f, hf, rfl⟩ := hl
    obtain ⟨text, hload⟩ := (h.sites f hf).literal
    obtain rfl : _ = i := Option.some.inj (hload.symm.trans hi)
    cases hx
    have himage : image folds ⟨f.literal, ⟨.single, some (.string text)⟩⟩ = f.planted folds :=
      h.image_site hf (.inl rfl)
    refine ⟨_, h.kept_literal hf, rfl, rfl, ?_⟩
    simp [Instruction.symbolic?, Instruction.stackEffect?, Instruction.loaded?, Instruction.constant?,
      StackEffect.run?, Constant.width, Fold.planted, himage]
  · simp only [not_exists, not_and] at hl
    refine ⟨_, h.kept_other hn hl hi, rfl, Instruction.targets_retarget _ i, ?_⟩
    rw [Instruction.symbolic?_retarget]
    rw [Instruction.symbolic?, Option.bind_eq_some_iff] at hx
    obtain ⟨effect, heffect, hrun⟩ := hx
    have hstacks : List.Forall₂ (IsImage folds b.instructions) σ (σ.map (image folds)) :=
      List.forall₂_map_right_iff.2 (List.forall₂_same.2 fun x hx => ⟨rfl, hσ x hx⟩)
    have hnew : ∀ value, effect.pushed? = some value →
        IsImage folds b.instructions ⟨n, value⟩ ⟨renumber (calls folds) n, value⟩ := by
      refine fun value hvalue => ⟨?_, i, effect, hi, heffect, hvalue⟩
      rw [image_other]
      exact fun f hf => ⟨fun heq => hl f hf heq.symm, fun heq => hn (List.mem_map.2 ⟨f, hf, heq.symm⟩)⟩
    obtain ⟨taken', after', hrun', h1, h2⟩ :=
      StackEffect.run?_rel (R := IsImage folds b.instructions)
        (fun x y hxy => by rw [hxy.1, h.width_image hxy.2]) hnew hstacks hrun
    rw [Instruction.symbolic?, heffect, Option.bind_some, hrun', eq_map_image h1, eq_map_image h2]

end Folding

end Decryption

end Jvm
