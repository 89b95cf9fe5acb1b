import Jvm.Decryption.Fold
import Mathlib.Data.List.Basic

/-!
# Taking several instructions out of a body

`renumber removed n` is where instruction `n` stands once those at `removed` are gone: as many places
lower as there are removed ones below. Removing them one by one from the last to the first, with the
targets renamed each time, comes to renaming once by `renumber` (`without_applyAll`): a removal moves
nothing that is still to be removed.
-/

namespace Jvm

/-- The new place of an instruction, or of the next one kept after it. -/
def renumber (removed : List Nat) (n : Nat) : Nat := n - removed.countP (· < n)

section Renumber

variable {removed : List Nat} {c n m : Nat}

theorem countP_below (h : removed.Pairwise (· < ·)) (hc : ∀ m ∈ removed, c ≤ m) :
    removed.countP (· < n) ≤ n - c := by
  induction removed generalizing c with
  | nil => simp
  | cons m rest ih =>
    obtain ⟨hm, hrest⟩ := List.pairwise_cons.1 h
    have hcm := hc m List.mem_cons_self
    have hle := ih (c := m + 1) hrest fun k hk => hm k hk
    rw [List.countP_cons]
    by_cases hmn : m < n
    · simp only [hmn, decide_true, if_true]
      omega
    · simp only [hmn, decide_false, Bool.false_eq_true, if_false]
      omega

theorem renumber_le (h : removed.Pairwise (· < ·)) (hc : ∀ m ∈ removed, n ≤ m) :
    renumber removed n = n := by
  have := countP_below (n := n) h hc
  rw [renumber]
  omega

theorem lt_renumber (h : removed.Pairwise (· < ·)) (hc : ∀ m ∈ removed, c < m) (hn : c < n) :
    c < renumber removed n := by
  have := countP_below (c := c + 1) (n := n) h hc
  rw [renumber]
  omega

/-- The first of the removed instructions goes last. -/
theorem renumber_cons (h : (c :: removed).Pairwise (· < ·)) :
    renumber (c :: removed) n = MethodBody.shiftTarget c (renumber removed n) := by
  obtain ⟨hc, hrest⟩ := List.pairwise_cons.1 h
  rw [MethodBody.shiftTarget]
  by_cases hn : c < n
  · rw [if_pos (lt_renumber hrest hc hn), renumber, renumber, List.countP_cons]
    simp only [hn, decide_true, if_true]
    omega
  · rw [renumber_le hrest fun m hm => by have := hc m hm; omega, if_neg hn]
    refine renumber_le h fun m hm => ?_
    rcases List.mem_cons.1 hm with rfl | hm
    · omega
    · have := hc m hm
      omega

theorem countP_succ (h : removed.Nodup) :
    removed.countP (· < n + 1) = removed.countP (· < n) + if n ∈ removed then 1 else 0 := by
  induction removed with
  | nil => simp
  | cons m rest ih =>
    obtain ⟨hm, hrest⟩ := List.nodup_cons.1 h
    rw [List.countP_cons, List.countP_cons, ih hrest]
    rcases Nat.lt_trichotomy m n with hmn | rfl | hmn
    · have h1 : m < n + 1 := by omega
      have h2 : n ≠ m := by omega
      simp only [hmn, h1, decide_true, if_true, List.mem_cons, h2, false_or]
      omega
    · simp [hm]
    · have h1 : ¬ m < n + 1 := by omega
      have h2 : ¬ m < n := by omega
      have h3 : n ≠ m := by omega
      simp [h1, h2, h3]

/-- A removed instruction has the place of the next one. -/
theorem renumber_removed (h : removed.Pairwise (· < ·)) (hn : n ∈ removed) :
    renumber removed (n + 1) = renumber removed n := by
  have := countP_below (c := 0) (n := n) h fun _ _ => Nat.zero_le _
  rw [renumber, renumber, countP_succ (h.imp Nat.ne_of_lt), if_pos hn]
  omega

theorem renumber_succ (h : removed.Pairwise (· < ·)) (hn : n ∉ removed) :
    renumber removed (n + 1) = renumber removed n + 1 := by
  have := countP_below (c := 0) (n := n) h fun _ _ => Nat.zero_le _
  rw [renumber, renumber, countP_succ (h.imp Nat.ne_of_lt), if_neg hn]
  omega

end Renumber

namespace Instruction

theorem retarget_retarget (f g : Nat → Nat) (i : Instruction) :
    (i.retarget f).retarget g = i.retarget (g ∘ f) := by
  obtain ⟨opcode, operand⟩ := i
  cases operand <;> simp [retarget, Operand.retarget]

theorem retarget_id (i : Instruction) : i.retarget id = i := by
  obtain ⟨opcode, operand⟩ := i
  cases operand <;> simp [retarget, Operand.retarget]

theorem targets_retarget (f : Nat → Nat) (i : Instruction) :
    (i.retarget f).targets = i.targets.map f := by
  obtain ⟨opcode, operand⟩ := i
  cases operand <;> simp [retarget, targets, Operand.retarget, Operand.targets]

end Instruction

/-- `code'` is `code` without the instructions at `removed`, with its targets renamed. -/
structure Without (removed : List Nat) (code code' : Array Instruction) : Prop where
  kept : ∀ n i, n ∉ removed → code[n]? = some i →
    code'[renumber removed n]? = some (i.retarget (renumber removed))
  onto : ∀ m i', code'[m]? = some i' → ∃ n i, n ∉ removed ∧ code[n]? = some i ∧ renumber removed n = m

namespace MethodBody

variable {b b' : MethodBody} {c : Nat}

theorem remove_eq_ok {i : Instruction} (h : b.remove c = .ok (i, b')) : ∃ hc : c < b.instructions.size,
    b' = { b with instructions := (b.instructions.eraseIdx c hc).map (·.retarget (shiftTarget c)) } := by
  rw [remove] at h
  split at h
  · cases h
  · rename_i removed hremoved
    cases h
    have hc := (Array.getElem?_eq_some_iff.1 hremoved).1
    exact ⟨hc, by rw [Array.eraseIdxIfInBounds_eq, dif_pos hc]⟩

theorem remove_spec {i : Instruction} (h : b.remove c = .ok (i, b')) :
    b'.maxLocals = b.maxLocals ∧ ∀ n, b'.instructions[n]? =
      (if n < c then b.instructions[n]? else b.instructions[n + 1]?).map (·.retarget (shiftTarget c)) := by
  obtain ⟨hc, rfl⟩ := remove_eq_ok h
  exact ⟨rfl, fun n => by rw [Array.getElem?_map, Array.getElem?_eraseIdx]⟩

theorem exists_remove (hc : c < b.size) : ∃ i b', b.remove c = .ok (i, b') := by
  rw [remove, Array.getElem?_eq_getElem hc]
  exact ⟨_, _, rfl⟩

theorem size_remove {i : Instruction} (h : b.remove c = .ok (i, b')) : b'.size + 1 = b.size := by
  obtain ⟨hc, rfl⟩ := remove_eq_ok h
  rw [size, Array.size_map, Array.size_eraseIdx, size]
  omega

theorem without_remove {removed : List Nat} {code : Array Instruction} {i : Instruction}
    (hc : (c :: removed).Pairwise (· < ·)) (hw : Without removed code b.instructions)
    (h : b.remove c = .ok (i, b')) : Without (c :: removed) code b'.instructions := by
  obtain ⟨hlt, hsorted⟩ := List.pairwise_cons.1 hc
  have hshift : renumber (c :: removed) = shiftTarget c ∘ renumber removed :=
    funext fun n => renumber_cons hc
  have hcplace : renumber removed c = c := renumber_le hsorted fun m hm => Nat.le_of_lt (hlt m hm)
  obtain ⟨-, hget⟩ := remove_spec h
  constructor
  · intro n j hn hj
    rw [List.mem_cons, not_or] at hn
    have hold := hw.kept n j hn.2 hj
    rw [hshift, ← Instruction.retarget_retarget, Function.comp_apply, shiftTarget]
    rcases Nat.lt_or_gt_of_ne hn.1 with hnc | hnc
    · have hplace : renumber removed n = n :=
        renumber_le hsorted fun m hm => by have := hlt m hm; omega
      rw [if_neg (by omega), hget, if_pos (by omega), hold, Option.map_some]
    · have hplace := lt_renumber hsorted hlt hnc
      rw [if_pos hplace, hget, if_neg (by omega), show renumber removed n - 1 + 1 = renumber removed n by
        omega, hold, Option.map_some]
  · intro m j hm
    rw [hget, Option.map_eq_some_iff] at hm
    obtain ⟨k, hk, -⟩ := hm
    split at hk
    · rename_i hmc
      obtain ⟨n, i, hn, hi, rfl⟩ := hw.onto m k hk
      refine ⟨n, i, ?_, hi, ?_⟩
      · rw [List.mem_cons, not_or]
        exact ⟨by rintro rfl; omega, hn⟩
      · rw [renumber_cons hc, shiftTarget, if_neg (by omega)]
    · rename_i hmc
      obtain ⟨n, i, hn, hi, hplace⟩ := hw.onto (m + 1) k hk
      refine ⟨n, i, ?_, hi, ?_⟩
      · rw [List.mem_cons, not_or]
        exact ⟨by rintro rfl; omega, hn⟩
      · rw [renumber_cons hc, shiftTarget, hplace, if_pos (by omega), Nat.add_sub_cancel]

end MethodBody

namespace Decryption.Fold

/-- All calls together are removed as one set. -/
theorem without_removeAll {folds : List Fold} {b b' : MethodBody}
    (hs : (folds.map Fold.call).Pairwise (· < ·))
    (h : folds.foldrM (fun f b => (·.2) <$> b.remove f.call) b = .ok b') :
    Without (folds.map Fold.call) b.instructions b'.instructions ∧ b'.maxLocals = b.maxLocals := by
  induction folds generalizing b' with
  | nil =>
    cases h
    refine ⟨⟨fun n i _ hi => ?_, fun m i hi => ⟨m, i, by simp, hi, rfl⟩⟩, rfl⟩
    rw [show renumber (List.map Fold.call []) = id from rfl, Instruction.retarget_id]
    exact hi
  | cons f folds ih =>
    rw [List.foldrM_cons] at h
    cases hr : folds.foldrM (fun f b => (·.2) <$> b.remove f.call) b with
    | error => rw [hr] at h; cases h
    | ok r =>
      rw [hr] at h
      cases hf : r.remove f.call with
      | error =>
        change (·.2) <$> r.remove f.call = _ at h
        rw [hf] at h
        cases h
      | ok p =>
        change (·.2) <$> r.remove f.call = _ at h
        rw [hf] at h
        cases h
        obtain ⟨hw, hl⟩ := ih (List.pairwise_cons.1 hs).2 hr
        exact ⟨MethodBody.without_remove hs hw hf, (MethodBody.remove_spec hf).1.trans hl⟩

/-- Calls inside of a body can be removed, and each makes it one instruction shorter. -/
theorem exists_removeAll {folds : List Fold} {b : MethodBody} (hs : (folds.map Fold.call).Pairwise (· < ·))
    (hlt : ∀ f ∈ folds, f.call < b.size) : ∃ b',
      folds.foldrM (fun f b => (·.2) <$> b.remove f.call) b = .ok b' ∧ b'.size + folds.length = b.size := by
  induction folds with
  | nil => exact ⟨b, rfl, rfl⟩
  | cons f folds ih =>
    obtain ⟨hf, hrest⟩ := List.pairwise_cons.1 hs
    obtain ⟨r, hr, hsize⟩ := ih hrest fun g hg => hlt g (List.mem_cons_of_mem _ hg)
    -- the calls that are gone stood between this one and the end
    have hcount : folds.length ≤ b.size - (f.call + 1) := by
      have hall : (folds.map Fold.call).countP (· < b.size) = folds.length := by
        rw [List.countP_eq_length.2, List.length_map]
        intro n hn
        obtain ⟨g, hg, rfl⟩ := List.mem_map.1 hn
        simpa using hlt g (List.mem_cons_of_mem _ hg)
      exact hall ▸ countP_below hrest fun n hn => hf n hn
    have hcall := hlt f List.mem_cons_self
    obtain ⟨i, b', hb'⟩ := MethodBody.exists_remove (b := r) (c := f.call) (by omega)
    have hb'size := MethodBody.size_remove hb'
    refine ⟨b', ?_, by rw [List.length_cons]; omega⟩
    rw [List.foldrM_cons, hr]
    change (·.2) <$> r.remove f.call = _
    rw [hb']
    rfl

/-- What the literals' instructions are before the calls go. -/
def plantAll (folds : List Fold) (code : Array Instruction) : Array Instruction :=
  folds.foldl (fun code f => f.plant code) code

theorem size_plantAll (folds : List Fold) (code : Array Instruction) :
    (plantAll folds code).size = code.size := by
  induction folds generalizing code with
  | nil => rfl
  | cons f folds ih => rw [plantAll, List.foldl_cons, ← plantAll, ih, plant, Array.size_modify]

theorem plant_ne {f : Fold} {code : Array Instruction} {n : Nat} (h : f.literal ≠ n) :
    (f.plant code)[n]? = code[n]? := by
  rw [plant, Array.getElem?_modify, if_neg h]

theorem plantAll_ne {folds : List Fold} {code : Array Instruction} {n : Nat}
    (h : ∀ f ∈ folds, f.literal ≠ n) : (plantAll folds code)[n]? = code[n]? := by
  induction folds generalizing code with
  | nil => rfl
  | cons f folds ih =>
    rw [plantAll, List.foldl_cons, ← plantAll, ih fun g hg => h g (List.mem_cons_of_mem _ hg),
      plant_ne (h f List.mem_cons_self)]

theorem plantAll_literal {folds : List Fold} {code : Array Instruction} {f : Fold} (hf : f ∈ folds)
    (h : folds.Pairwise fun f g => f.literal ≠ g.literal) :
    (plantAll folds code)[f.literal]? =
      code[f.literal]?.map fun i => { i with operand := .const (.string f.plain) } := by
  induction folds generalizing code with
  | nil => cases hf
  | cons g folds ih =>
    obtain ⟨hg, hrest⟩ := List.pairwise_cons.1 h
    rw [plantAll, List.foldl_cons, ← plantAll]
    rcases List.mem_cons.1 hf with rfl | hf
    · rw [plantAll_ne fun k hk => (hg k hk).symm, plant, Array.getElem?_modify, if_pos rfl]
    · rw [ih hf hrest, plant_ne (hg f hf)]

theorem without_applyAll {folds : List Fold} {b b' : MethodBody}
    (hs : (folds.map Fold.call).Pairwise (· < ·)) (h : applyAll folds b = .ok b') :
    Without (folds.map Fold.call) (plantAll folds b.instructions) b'.instructions ∧
      b'.maxLocals = b.maxLocals :=
  without_removeAll hs h

theorem exists_applyAll {folds : List Fold} {b : MethodBody} (hs : (folds.map Fold.call).Pairwise (· < ·))
    (hlt : ∀ f ∈ folds, f.call < b.size) :
    ∃ b', applyAll folds b = .ok b' ∧ b'.size + folds.length = b.size := by
  have hsize : MethodBody.size { b with instructions := plantAll folds b.instructions } = b.size :=
    size_plantAll folds b.instructions
  obtain ⟨b', hb', hlength⟩ := exists_removeAll hs fun f hf => hsize.symm ▸ hlt f hf
  exact ⟨b', hb', hlength.trans hsize⟩

end Decryption.Fold

end Jvm
