import Jvm.Proofs.Decryption.Folding
import Jvm.Proofs.Decryption.Treatment

/-!
# A folded body does the same

A body `b` and the body `b'` that its folds leave run side by side. A removed call changes nothing in
`b'`, where its operand already is what it would leave (`trace_call`), and kept instructions go the same
ways in both (`symbolic_image`). So paths and traces match in both directions, where a path to a
removed call is walked on to the next kept instruction (`exists_kept`).

`run_refines` says so of every body that a run of the pass rewrites.
-/

namespace Jvm.Decryption

namespace Folding

variable {owner : String} {b b' : MethodBody} {a : Analysis} {folds : List Fold} {f : Fold}
  {path : List Nat} {n : Nat} {σ : List Tagged}

theorem fallen_map (i : Instruction) (σ : List Tagged) :
    i.fallen (σ.map (image folds)) = (i.fallen σ).map (image folds) := by
  rw [Instruction.fallen, Instruction.fallen]
  split
  · rw [List.map_drop]
  · rfl

theorem keptPath_call (hf : f ∈ folds) : keptPath folds (f.call :: path) = keptPath folds path := by
  rw [keptPath, keptPath, List.filter_cons_of_neg]
  simpa using ⟨f, hf, rfl⟩

theorem keptPath_kept (hn : n ∉ calls folds) :
    keptPath folds (n :: path) = renumber (calls folds) n :: keptPath folds path := by
  rw [keptPath, keptPath, List.filter_cons_of_pos (by simpa using hn), List.map_cons]

/-! ### One step -/

/-- A removed call leaves what stands for its operand, and goes on to the next instruction. -/
theorem step_call (h : Folding owner b b' a folds) (hf : f ∈ folds)
    (ht : Trace b.instructions path f.call σ) : ∃ i taken after,
      b.instructions[f.call]? = some i ∧ i.symbolic? f.call σ = some (taken, after) ∧
      i.fallsThrough = true ∧ i.targets = [] ∧
      (i.fallen after).map (image folds) = σ.map (image folds) := by
  obtain ⟨i, e, taken, after, hi, he, hx, hdesc⟩ := Flow.describes_of_analyze h.accepted ht
  obtain ⟨j, kind, m, hj, rfl, heffect⟩ := (h.sites f hf).call
  obtain rfl := Option.some.inj (hj.symm.trans hi)
  obtain ⟨e', text, he', hargs⟩ := (h.sites f hf).argument
  obtain rfl : e = e' := Option.some.inj (he.symm.trans he')
  refine ⟨_, taken, after, hi, hx, rfl, rfl, ?_⟩
  rw [hargs] at hdesc
  cases σ with
  | nil => simp [Instruction.symbolic?, heffect, StackEffect.run?] at hx
  | cons x rest =>
    simp only [Instruction.symbolic?, heffect, StackEffect.run?, Option.bind_some, List.length_cons,
      Nat.not_lt.2 (Nat.le_add_left 1 _), if_false, Option.some.injEq, Prod.mk.injEq] at hx
    obtain ⟨rfl, rfl⟩ := hx
    obtain ⟨hx, -⟩ := List.forall₂_cons.1 hdesc
    have hsource : x.source = f.literal := (hx.literal _ _ rfl).1
    have hjsr : Instruction.fallen ⟨.invoke kind, .method m⟩ = id (α := List Tagged) := by
      funext τ
      simp [Instruction.fallen]
    rw [hjsr]
    simp [h.image_site hf (x := x) (.inl hsource), h.image_site hf (x := ⟨f.call, _⟩) (.inr rfl)]

/-- What a site's literal pushed is taken by its call only. -/
theorem source_ne_literal (h : Folding owner b b' a folds) (hn : n ∉ calls folds)
    (ht : Trace b.instructions path n σ) {i : Instruction} {taken after : List Tagged}
    (hi : b.instructions[n]? = some i) (hx : i.symbolic? n σ = some (taken, after)) :
    ∀ x ∈ taken, ∀ f ∈ folds, x.source ≠ f.literal := by
  intro x hmem f hf hsource
  obtain ⟨j, e, taken', after', hj, he, hx', hdesc⟩ := Flow.describes_of_analyze h.accepted ht
  obtain rfl : i = j := Option.some.inj (hi.symm.trans hj)
  obtain ⟨rfl, rfl⟩ := Prod.mk.inj (Option.some.inj (hx.symm.trans hx'))
  obtain ⟨k, hk, hdk⟩ := exists_of_forall₂ hdesc hmem
  obtain ⟨e', text, he', hargs⟩ := (h.sites f hf).argument
  refine hn (List.mem_map.2 ⟨f, hf, ?_⟩)
  refine Analysis.eq_of_consumers (h.sites f hf).unshared he' he ?_ ?_
  · simp [hargs, Frame.mayComeFrom, Frame.source?]
  · exact List.any_eq_true.2 ⟨k, hk, hsource ▸ hdk.mayComeFrom⟩

/-- A kept instruction in both bodies. -/
theorem step_kept (h : Folding owner b b' a folds) (hn : n ∉ calls folds)
    (ht : Trace b.instructions path n σ) : ∃ i i' taken after,
      b.instructions[n]? = some i ∧ b'.instructions[renumber (calls folds) n]? = some i' ∧
      i'.opcode = i.opcode ∧ i'.targets = i.targets.map (renumber (calls folds)) ∧
      i.symbolic? n σ = some (taken, after) ∧
      i'.symbolic? (renumber (calls folds) n) (σ.map (image folds))
        = some (taken.map (image folds), after.map (image folds)) ∧
      ∀ x ∈ taken, ∀ f ∈ folds, x.source ≠ f.literal := by
  obtain ⟨i, e, taken, after, hi, -, hx, -⟩ := Flow.describes_of_analyze h.accepted ht
  obtain ⟨i', hi', hop, htargets, hx'⟩ := h.symbolic_image hn hi ht.made hx
  exact ⟨i, i', taken, after, hi, hi', hop, htargets, hx, hx', h.source_ne_literal hn ht hi hx⟩

/-! ### Whole paths -/

/-- A trace can be taken on over removed calls to a kept instruction. -/
theorem exists_kept (h : Folding owner b b' a folds) (ht : Trace b.instructions path n σ) :
    ∃ path' n' σ', n' ∉ calls folds ∧ Trace b.instructions path' n' σ' ∧
      keptPath folds path' = keptPath folds path ∧
      renumber (calls folds) n' = renumber (calls folds) n ∧
      σ'.map (image folds) = σ.map (image folds) := by
  induction hk : b.instructions.size - n using Nat.strong_induction_on generalizing path n σ with
  | _ k ih =>
    by_cases hn : n ∈ calls folds
    · obtain ⟨f, hf, rfl⟩ := List.mem_map.1 hn
      obtain ⟨i, taken, after, hi, hx, hfall, -, himage⟩ := h.step_call hf ht
      have hlt := (Array.getElem?_eq_some_iff.1 hi).1
      obtain ⟨path', n', σ', hn', ht', hpath, hplace, hσ⟩ :=
        ih _ (by omega) (.next ht hi hx hfall) rfl
      exact ⟨path', n', σ', hn', ht', hpath.trans (keptPath_call hf),
        hplace.trans (renumber_removed h.ordered hn), hσ.trans himage⟩
    · exact ⟨path, n, σ, hn, ht, rfl, rfl, rfl⟩

theorem trace_forward (h : Folding owner b b' a folds) (ht : Trace b.instructions path n σ) :
    Trace b'.instructions (keptPath folds path) (renumber (calls folds) n) (σ.map (image folds)) := by
  induction ht with
  | start hpos =>
    obtain ⟨path', n', σ', hn', ht', -⟩ := h.exists_kept (.start hpos)
    obtain ⟨i, i', taken, after, -, hi', -⟩ := h.step_kept hn' ht'
    have hlt := (Array.getElem?_eq_some_iff.1 hi').1
    rw [renumber_le h.ordered fun _ _ => Nat.zero_le _]
    exact .start (by omega)
  | @branch path n m i σ taken after ht hi hx hm ih =>
    by_cases hn : n ∈ calls folds
    · obtain ⟨f, hf, rfl⟩ := List.mem_map.1 hn
      obtain ⟨j, -, -, hj, -, -, hnone, -⟩ := h.step_call hf ht
      obtain rfl : i = j := Option.some.inj (hi.symm.trans hj)
      rw [hnone] at hm
      cases hm
    · obtain ⟨j, i', taken', after', hj, hi', -, htargets, hx', hx'', -⟩ := h.step_kept hn ht
      obtain rfl : i = j := Option.some.inj (hi.symm.trans hj)
      obtain ⟨rfl, rfl⟩ := Prod.mk.inj (Option.some.inj (hx.symm.trans hx'))
      rw [keptPath_kept hn]
      exact .branch ih hi' hx'' (htargets ▸ List.mem_map_of_mem hm)
  | @next path n i σ taken after ht hi hx hf ih =>
    by_cases hn : n ∈ calls folds
    · obtain ⟨f, hmem, rfl⟩ := List.mem_map.1 hn
      obtain ⟨j, taken', after', hj, hx', -, -, himage⟩ := h.step_call hmem ht
      obtain rfl : i = j := Option.some.inj (hi.symm.trans hj)
      obtain ⟨rfl, rfl⟩ := Prod.mk.inj (Option.some.inj (hx.symm.trans hx'))
      rw [keptPath_call hmem, renumber_removed h.ordered hn, himage]
      exact ih
    · obtain ⟨j, i', taken', after', hj, hi', hop, -, hx', hx'', -⟩ := h.step_kept hn ht
      obtain rfl : i = j := Option.some.inj (hi.symm.trans hj)
      obtain ⟨rfl, rfl⟩ := Prod.mk.inj (Option.some.inj (hx.symm.trans hx'))
      rw [keptPath_kept hn, renumber_succ h.ordered hn, ← fallen_map]
      have hfallen : i.fallen (after.map (image folds)) = i'.fallen (after.map (image folds)) := by
        rw [Instruction.fallen, Instruction.fallen, hop]
      rw [hfallen]
      exact .next ih hi' hx'' (by rw [Instruction.fallsThrough, hop]; exact hf)

theorem pos_of_folded (h : Folding owner b b' a folds) (hpos : 0 < b'.instructions.size) :
    0 < b.instructions.size := by
  obtain ⟨n, i, -, hi, -⟩ := h.applied.onto 0 _ (Array.getElem?_eq_getElem hpos)
  have hlt := (Array.getElem?_eq_some_iff.1 hi).1
  rw [Fold.size_plantAll] at hlt
  omega

theorem trace_backward (h : Folding owner b b' a folds) {path' : List Nat} {n' : Nat}
    {σ' : List Tagged} (ht : Trace b'.instructions path' n' σ') : ∃ path n σ, n ∉ calls folds ∧
      Trace b.instructions path n σ ∧ keptPath folds path = path' ∧
      renumber (calls folds) n = n' ∧ σ.map (image folds) = σ' := by
  induction ht with
  | start hpos =>
    obtain ⟨path, n, σ, hn, ht, hpath, hplace, hσ⟩ := h.exists_kept (.start (h.pos_of_folded hpos))
    exact ⟨path, n, σ, hn, ht, hpath,
      hplace.trans (renumber_le h.ordered fun _ _ => Nat.zero_le _), hσ⟩
  | @branch _ _ m i' _ taken' after' _ hi' hx' hm ih =>
    obtain ⟨path, n, σ, hn, ht, rfl, rfl, rfl⟩ := ih
    obtain ⟨i, j, taken, after, hi, hj, -, htargets, hx, hx'', -⟩ := h.step_kept hn ht
    obtain rfl : i' = j := Option.some.inj (hi'.symm.trans hj)
    obtain ⟨rfl, rfl⟩ := Prod.mk.inj (Option.some.inj (hx'.symm.trans hx''))
    rw [htargets] at hm
    obtain ⟨target, htarget, rfl⟩ := List.mem_map.1 hm
    obtain ⟨path₁, n₁, σ₁, hn₁, ht₁, hpath, hplace, hσ⟩ := h.exists_kept (.branch ht hi hx htarget)
    exact ⟨path₁, n₁, σ₁, hn₁, ht₁, hpath.trans (keptPath_kept hn), hplace, hσ⟩
  | @next _ _ i' _ taken' after' _ hi' hx' hf ih =>
    obtain ⟨path, n, σ, hn, ht, rfl, rfl, rfl⟩ := ih
    obtain ⟨i, j, taken, after, hi, hj, hop, -, hx, hx'', -⟩ := h.step_kept hn ht
    obtain rfl : i' = j := Option.some.inj (hi'.symm.trans hj)
    obtain ⟨rfl, rfl⟩ := Prod.mk.inj (Option.some.inj (hx'.symm.trans hx''))
    have hfall : i.fallsThrough = true := by
      rw [Instruction.fallsThrough, ← hop]
      exact hf
    obtain ⟨path₁, n₁, σ₁, hn₁, ht₁, hpath, hplace, hσ⟩ := h.exists_kept (.next ht hi hx hfall)
    refine ⟨path₁, n₁, σ₁, hn₁, ht₁, hpath.trans (keptPath_kept hn),
      hplace.trans (renumber_succ h.ordered hn), hσ.trans ?_⟩
    rw [← fallen_map, Instruction.fallen, Instruction.fallen, hop]

/-- Symbolic execution gets stuck on no path of the folded body. -/
theorem exists_trace_folded (h : Folding owner b b' a folds) {path' : List Nat} {n' : Nat}
    (hp : Path b'.instructions path' n') : ∃ σ', Trace b'.instructions path' n' σ' := by
  induction hp with
  | start hpos => exact ⟨[], .start hpos⟩
  | branch _ hi' hm ih =>
    obtain ⟨σ', ht'⟩ := ih
    obtain ⟨path, n, σ, hn, ht, rfl, rfl, rfl⟩ := h.trace_backward ht'
    obtain ⟨i, j, taken, after, -, hj, -, -, -, hx', -⟩ := h.step_kept hn ht
    obtain rfl := Option.some.inj (hi'.symm.trans hj)
    exact ⟨_, .branch ht' hi' hx' hm⟩
  | next _ hi' hf ih =>
    obtain ⟨σ', ht'⟩ := ih
    obtain ⟨path, n, σ, hn, ht, rfl, rfl, rfl⟩ := h.trace_backward ht'
    obtain ⟨i, j, taken, after, -, hj, -, -, -, hx', -⟩ := h.step_kept hn ht
    obtain rfl := Option.some.inj (hi'.symm.trans hj)
    exact ⟨_, .next ht' hi' hx' hf⟩

end Folding

/-! ### What a run of the pass leaves -/

/-- `code'` does what `code` did, but for the folded calls. -/
structure Refines (folds : List Fold) (code code' : Array Instruction) : Prop where
  /-- Only the literals and the calls of the folds are touched. -/
  rewritten : Without (calls folds) (Fold.plantAll folds code) code'
  /-- The result of a folded call is the plain text, pushed where the literal was. -/
  result : ∀ f ∈ folds, ∀ x : Tagged, x.source = f.call → image folds x =
    ⟨renumber (calls folds) f.literal, ⟨.single, some (.string f.plain)⟩⟩
  /-- An operand of any other instruction only gets a new place. -/
  other : ∀ x : Tagged, (∀ f ∈ folds, x.source ≠ f.literal ∧ x.source ≠ f.call) →
    image folds x = ⟨renumber (calls folds) x.source, x.value⟩
  paths : ∀ path n, n ∉ calls folds → Path code path n →
    Path code' (keptPath folds path) (renumber (calls folds) n)
  pathsBack : ∀ path' n', Path code' path' n' → ∃ path n, n ∉ calls folds ∧ Path code path n ∧
    keptPath folds path = path' ∧ renumber (calls folds) n = n'
  traced : ∀ path n, Path code path n → ∃ σ, Trace code path n σ
  traces : ∀ path n σ, n ∉ calls folds → Trace code path n σ →
    Trace code' (keptPath folds path) (renumber (calls folds) n) (σ.map (image folds))
  tracesBack : ∀ path' n' σ', Trace code' path' n' σ' → ∃ path n σ, n ∉ calls folds ∧
    Trace code path n σ ∧ keptPath folds path = path' ∧ renumber (calls folds) n = n' ∧
    σ.map (image folds) = σ'
  /-- A kept instruction takes the images of what it took, and never what a folded literal pushed. -/
  operands : ∀ path n σ, n ∉ calls folds → Trace code path n σ → ∃ i i' taken after,
    code[n]? = some i ∧ code'[renumber (calls folds) n]? = some i' ∧
    i.symbolic? n σ = some (taken, after) ∧
    i'.symbolic? (renumber (calls folds) n) (σ.map (image folds))
      = some (taken.map (image folds), after.map (image folds)) ∧
    ∀ x ∈ taken, ∀ f ∈ folds, x.source ≠ f.literal

theorem Folding.refines {owner : String} {b b' : MethodBody} {a : Analysis} {folds : List Fold}
    (h : Folding owner b b' a folds) : Refines folds b.instructions b'.instructions where
  rewritten := h.applied
  result := fun _ hf _ hx => h.image_site hf (.inr hx)
  other := fun _ hx => Folding.image_other hx
  paths := fun path n _ hp => by
    obtain ⟨σ, ht⟩ := Flow.exists_trace_of_analyze h.accepted hp
    exact (h.trace_forward ht).path
  pathsBack := fun path' n' hp => by
    obtain ⟨σ', ht'⟩ := h.exists_trace_folded hp
    obtain ⟨path, n, σ, hn, ht, hpath, hplace, -⟩ := h.trace_backward ht'
    exact ⟨path, n, hn, ht.path, hpath, hplace⟩
  traced := fun _ _ => Flow.exists_trace_of_analyze h.accepted
  traces := fun _ _ _ _ ht => h.trace_forward ht
  tracesBack := fun _ _ _ ht => h.trace_backward ht
  operands := fun path n σ hn ht => by
    obtain ⟨i, i', taken, after, hi, hi', -, -, hx, hx', hne⟩ := h.step_kept hn ht
    exact ⟨i, i', taken, after, hi, hi', hx, hx', hne⟩

/-- A body with folds is one that the analysis accepts. -/
theorem exists_folding {p : Pass} (ho : p.obfuscator.Faithful) {d : ClassDictionary} {c : ClassFile} {m : Method}
    {b b' : MethodBody} (hb : m.body = some b) (hne : p.folds d c m ≠ [])
    (happly : Fold.applyAll (p.folds d c m) b = .ok b') : ∃ a, Folding c.name b b' a (p.folds d c m) := by
  cases ha : Flow.analyze c.name b with
  | error =>
    refine absurd (folds_unreadable fun b₁ a₁ hb₁ ha₁ => ?_) hne
    cases hb.symm.trans hb₁
    cases ha.symm.trans ha₁
  | ok a =>
    have hsites : ∀ f ∈ p.folds d c m, f.Site b.instructions a := fun f hf => site_of_mem ho hb ha hf
    exact ⟨a, ha, hsites, ordered_folds, (Fold.without_applyAll ordered_folds happly).1⟩

/-- A body without folds stays; any other does what it did before, but for the folded calls. -/
theorem foldMethod_refines {p : Pass} (ho : p.obfuscator.Faithful) {d : ClassDictionary} {c : ClassFile}
    {m m' : Method} {b : MethodBody} (hb : m.body = some b)
    (h : Pass.foldMethod (p.noted d c m) m = .ok m') : ∃ b', m'.body = some b' ∧
      (p.folds d c m = [] → b' = b) ∧
      (p.folds d c m ≠ [] → Refines (p.folds d c m) b.instructions b'.instructions) := by
  obtain ⟨b', hb', happly⟩ := foldMethod_body hb h
  refine ⟨b', hb', fun hnil => ?_, fun hne => ?_⟩
  · rw [hnil] at happly
    cases happly
    rfl
  · obtain ⟨a, hfolding⟩ := exists_folding ho hb hne happly
    exact hfolding.refines

/-- Every body that a run rewrites goes the same ways as before over the instructions that are left, and
they take the same operands, where the result of a folded call is its plain text. -/
theorem run_refines {p : Pass} (ho : p.obfuscator.Faithful) {s : Summary} {cs : List ClassFile}
    {r : Pass.Run} (h : p.run s cs = .ok r) {k j : Nat} {c : ClassFile} {m : Method} {b : MethodBody}
    (hc : cs[k]? = some c) (hm : c.methods[j]? = some m) (hb : m.body = some b) : ∃ c' m' b',
      r.classes[k]? = some c' ∧ c'.methods[j]? = some m' ∧ m'.body = some b' ∧
      (p.folds (.ofList cs) c m = [] → b' = b) ∧
      (p.folds (.ofList cs) c m ≠ [] →
        Refines (p.folds (.ofList cs) c m) b.instructions b'.instructions) := by
  obtain ⟨c', hc', hk⟩ := getElem?_of_forall₂ (run_spec h).classes hc
  obtain ⟨m', hm', hj⟩ := hc'.method hm
  obtain ⟨b', hb', hsame, hrefines⟩ := foldMethod_refines ho hb hm'
  exact ⟨c', m', b', hk, hj, hb', hsame, hrefines⟩

/-- A class with a decryptor that returns its argument. -/
def mirror : ClassFile :=
  ⟨"Mirror", none, [], 0, 0, [],
    [⟨"get", "(Ljava/lang/String;)Ljava/lang/String;", 8,
      some ⟨#[⟨.load .ref, .slot 0⟩, ⟨.valueReturn .ref, .none⟩], 1⟩⟩]⟩

/-- A method that asks it for a text. -/
def mirroredMain : Method :=
  ⟨"main", "()Ljava/lang/String;", 8,
    some ⟨#[⟨.ldc, .const (.string [97])⟩,
      ⟨.invoke .static, .method ⟨"Mirror", "get", "(Ljava/lang/String;)Ljava/lang/String;"⟩⟩,
      ⟨.valueReturn .ref, .none⟩], 0⟩⟩

def mirrored : ClassFile := ⟨"Mirrored", none, [], 0, 0, [], [mirroredMain]⟩

/-- The pass for programs that were made by Allatori, while no time goes by. -/
def standardPass : Pass := ⟨.allatori, .standard, [], fun _ => .still 0⟩

theorem exists_run_mirrored : ∃ r, standardPass.run .empty [mirror, mirrored] = .ok r := by
  have hok : (standardPass.run .empty [mirror, mirrored]).isOk = true := by decide +kernel
  cases hr : standardPass.run .empty [mirror, mirrored] with
  | error => rw [hr] at hok; cases hok
  | ok r => exact ⟨r, rfl⟩

theorem run_refines_mirrored : ∃ r c' m' b',
    standardPass.run .empty [mirror, mirrored] = .ok r ∧
    r.classes[1]? = some c' ∧ c'.methods[0]? = some m' ∧ m'.body = some b' ∧
    Refines [⟨0, 1, [97]⟩] (mirroredMain.body.get rfl).instructions b'.instructions := by
  have hfolds : standardPass.folds (.ofList [mirror, mirrored]) mirrored mirroredMain = [⟨0, 1, [97]⟩] := by
    decide +kernel
  obtain ⟨r, hr⟩ := exists_run_mirrored
  obtain ⟨c', m', b', hc', hm', hb', -, hrefines⟩ :=
    run_refines Obfuscator.faithful_allatori hr (k := 1) (j := 0) rfl rfl rfl
  exact ⟨r, c', m', b', hr, hc', hm', hb', hfolds ▸ hrefines (by rw [hfolds]; simp)⟩

end Jvm.Decryption
