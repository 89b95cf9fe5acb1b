import Jvm.Proofs.Assembly.Branches
import Jvm.Proofs.Decryption.Refinement
import Jvm.Proofs.Flow.Acceptance

/-!
# A run changes nothing else

`Rewritten` says all that a run does to a body: the operands of the folds' literals are other texts, their
calls are gone, and what is left closed up, with every target moved along. `run_preserves` says so of all
bodies of a program, and that nothing else of a class changes. A run without a budget fails before it
treats the first class, and no class can make it fail later, so that no failure leaves a program half done.

That a rewritten body is accepted again follows from `Refinement`: its traces are images of traces of the
body before, so that it is steady as that one is. Its targets stay inside as no accepted body ends with a
call, and so its last instruction is kept.
-/

namespace Jvm

section Renumber

variable {removed : List Nat} {n m : Nat}

theorem renumber_mono (h : removed.Pairwise (· < ·)) (hnm : n ≤ m) : renumber removed n ≤ renumber removed m := by
  induction hnm with
  | refl => exact Nat.le_refl _
  | @step m _ ih =>
    refine ih.trans ?_
    by_cases hm : m ∈ removed
    · exact (renumber_removed h hm).ge
    · exact renumber_succ h hm ▸ Nat.le_succ _

theorem renumber_lt (h : removed.Pairwise (· < ·)) (hn : n ∉ removed) (hnm : n < m) :
    renumber removed n < renumber removed m := by
  have hle : renumber removed (n + 1) ≤ renumber removed m := renumber_mono h hnm
  rw [renumber_succ h hn] at hle
  exact hle

/-- Two kept instructions have two places. -/
theorem renumber_inj (h : removed.Pairwise (· < ·)) (hn : n ∉ removed) (hm : m ∉ removed)
    (heq : renumber removed n = renumber removed m) : n = m := by
  rcases Nat.lt_trichotomy n m with hlt | rfl | hlt
  · exact absurd heq (renumber_lt h hn hlt).ne
  · rfl
  · exact absurd heq (renumber_lt h hm hlt).ne'

end Renumber

namespace Decryption

/-- What a run makes of a body of class `owner` at which it makes some folds. -/
structure Rewritten (owner : String) (folds : List Fold) (b b' : MethodBody) : Prop where
  maxLocals : b'.maxLocals = b.maxLocals
  size : b'.size + folds.length = b.size
  /-- Each fold removes a call of its own and replaces a literal of its own. -/
  calls : (calls folds).Nodup
  literals : (folds.map Fold.literal).Nodup
  removed : ∀ f ∈ folds, ∃ kind m, b.instructions[f.call]? = some ⟨.invoke kind, .method m⟩
  replaced : ∀ f ∈ folds, f.literal ∉ Decryption.calls folds ∧
    (∃ text, b.instructions[f.literal]? = some ⟨.ldc, .const (.string text)⟩) ∧
    b'.instructions[renumber (Decryption.calls folds) f.literal]? = some ⟨.ldc, .const (.string f.plain)⟩
  /-- Any other instruction only moves along with its targets. -/
  kept : ∀ n i, n ∉ Decryption.calls folds → n ∉ folds.map Fold.literal → b.instructions[n]? = some i →
    b'.instructions[renumber (Decryption.calls folds) n]? = some (i.retarget (renumber (Decryption.calls folds)))
  onto : ∀ m i', b'.instructions[m]? = some i' →
    ∃ n i, n ∉ Decryption.calls folds ∧ b.instructions[n]? = some i ∧ renumber (Decryption.calls folds) n = m
  untouched : folds = [] → b' = b
  accepted : folds ≠ [] → ∃ a, Flow.analyze owner b' = .ok a
  valid : b.validate = .ok () → b'.validate = .ok ()

namespace Folding

variable {owner : String} {b b' : MethodBody} {a : Analysis} {folds : List Fold}

/-- A body stays steady when its folds are applied. -/
theorem steady (h : Folding owner b b' a folds) : Flow.Steady b'.instructions := by
  have hsteady := Flow.steady_of_analyze h.accepted
  constructor
  · intro path' n' σ' ht'
    obtain ⟨path, n, σ, hn, ht, rfl, rfl, rfl⟩ := h.trace_backward ht'
    obtain ⟨i, i', taken, after, -, hi', -, -, -, hx', -⟩ := h.step_kept hn ht
    exact ⟨i', _, _, hi', hx'⟩
  · intro path₁ path₂ n' σ₁' σ₂' ht₁' ht₂'
    obtain ⟨path, n, σ, hn, ht, rfl, rfl, rfl⟩ := h.trace_backward ht₁'
    obtain ⟨path', m, τ, hm, ht', rfl, hplace, rfl⟩ := h.trace_backward ht₂'
    obtain rfl := renumber_inj h.ordered hm hn hplace
    have hwidths : ∀ {path σ}, Trace b.instructions path m σ → (σ.map (image folds)).map width = σ.map width := by
      intro path σ ht
      rw [List.map_map]
      exact List.map_congr_left fun x hx => h.width_image (ht.made x hx)
    rw [hwidths ht, hwidths ht']
    exact hsteady.agrees _ _ _ _ _ ht ht'

/-- A call that goes is not the last instruction. -/
theorem call_succ_lt (h : Folding owner b b' a folds) {f : Fold} (hf : f ∈ folds) : f.call + 1 < b.size := by
  obtain ⟨i, kind, m, hi, rfl, -⟩ := (h.sites f hf).call
  obtain ⟨e, text, he, -⟩ := (h.sites f hf).argument
  obtain ⟨p, rfl, hsound, hpending⟩ := Flow.sound_analyze h.accepted
  rw [Analysis.entry?, Option.join_eq_some_iff] at he
  obtain ⟨stack, hstack⟩ := hsound.reached _ _ he
  obtain ⟨j, e', after, hj, -, -, hsucc⟩ := hsound.settled f.call (by simp [hpending]) stack hstack
  obtain rfl := Option.some.inj (hi.symm.trans hj)
  obtain ⟨known, hknown, -⟩ := hsucc _ _ (Flow.mem_successors_next rfl)
  obtain ⟨next, hnext⟩ := Flow.Progress.at?_lt hsound hknown
  exact (Array.getElem?_eq_some_iff.1 hnext).1

/-- A target inside of the body is one inside of what is left. -/
theorem target_lt (h : Folding owner b b' a folds) {t : Nat} (ht : t < b.size) :
    renumber (calls folds) t < b'.size := by
  have hlast : b.size - 1 ∉ calls folds := by
    intro hmem
    obtain ⟨f, hf, heq⟩ := List.mem_map.1 hmem
    have := h.call_succ_lt hf
    omega
  have hplanted : b.size - 1 < (Fold.plantAll folds b.instructions).size := by
    rw [Fold.size_plantAll]
    exact Nat.sub_one_lt_of_lt ht
  have hkept := h.applied.kept (b.size - 1) _ hlast (Array.getElem?_eq_getElem hplanted)
  exact (renumber_mono h.ordered (Nat.le_sub_one_of_lt ht)).trans_lt (Array.getElem?_eq_some_iff.1 hkept).1

theorem valid (h : Folding owner b b' a folds) (hb : b.validate = .ok ()) : b'.validate = .ok () := by
  rw [MethodBody.validate_iff] at hb ⊢
  intro m i' hi' t ht
  obtain ⟨n, j, hn, hj, rfl⟩ := h.applied.onto m i' hi'
  by_cases hl : ∃ f ∈ folds, f.literal = n
  · obtain ⟨f, hf, rfl⟩ := hl
    obtain rfl := Option.some.inj (hi'.symm.trans (h.kept_literal hf))
    cases ht
  · have hlt := (Array.getElem?_eq_some_iff.1 hj).1
    rw [Fold.size_plantAll] at hlt
    have hi := Array.getElem?_eq_getElem hlt
    obtain rfl := Option.some.inj (hi'.symm.trans (h.kept_other hn (fun f hf heq => hl ⟨f, hf, heq⟩) hi))
    rw [Instruction.targets_retarget] at ht
    obtain ⟨u, hu, rfl⟩ := List.mem_map.1 ht
    exact h.target_lt (hb n _ hi u hu)

theorem rewritten (h : Folding owner b b' a folds) (hne : folds ≠ []) (happly : Fold.applyAll folds b = .ok b') :
    Rewritten owner folds b b' where
  maxLocals := (Fold.without_applyAll h.ordered happly).2
  size := by
    obtain ⟨b₁, hb₁, hsize⟩ := Fold.exists_applyAll h.ordered fun f hf => (Nat.lt_succ_self _).trans (h.call_succ_lt hf)
    obtain rfl := Except.ok.inj (happly.symm.trans hb₁)
    exact hsize
  calls := h.ordered.imp Nat.ne_of_lt
  literals := List.pairwise_map.2 h.distinct
  removed f hf := by
    obtain ⟨i, kind, m, hi, rfl, -⟩ := (h.sites f hf).call
    exact ⟨kind, m, hi⟩
  replaced f hf := ⟨h.literal_kept hf, (h.sites f hf).literal, h.kept_literal hf⟩
  kept n i hn hl hi := h.kept_other hn (fun f hf heq => hl (List.mem_map.2 ⟨f, hf, heq⟩)) hi
  onto m i' hi' := by
    obtain ⟨n, i, hn, hi, hplace⟩ := h.applied.onto m i' hi'
    have hlt := (Array.getElem?_eq_some_iff.1 hi).1
    rw [Fold.size_plantAll] at hlt
    exact ⟨n, _, hn, Array.getElem?_eq_getElem hlt, hplace⟩
  untouched hnil := absurd hnil hne
  accepted _ := Flow.exists_analyze owner h.steady
  valid := h.valid

end Folding

theorem rewritten_nil (owner : String) (b : MethodBody) : Rewritten owner [] b b where
  maxLocals := rfl
  size := rfl
  calls := .nil
  literals := .nil
  removed := nofun
  replaced := nofun
  kept n i _ _ hi := by
    rw [show renumber (calls []) = id from rfl, Instruction.retarget_id]
    exact hi
  onto m i hi := ⟨m, i, nofun, hi, rfl⟩
  untouched _ := rfl
  accepted hne := absurd rfl hne
  valid h := h

variable {p : Pass} {d : ClassDictionary} {c c' : ClassFile} {m m' : Method}

theorem foldMethod_rewritten (ho : p.obfuscator.Faithful) (h : Pass.foldMethod (p.noted d c m) m = .ok m') :
    m' = { m with body := m'.body } ∧ Option.Rel (Rewritten c.name (p.folds d c m)) m.body m'.body := by
  obtain ⟨hb, rfl⟩ | ⟨b, b', hb, happly, rfl⟩ := foldMethod_eq_ok.1 h
  · rw [hb]
    exact ⟨by rw [← hb], .none⟩
  refine ⟨rfl, hb ▸ .some ?_⟩
  by_cases hne : p.folds d c m = []
  · rw [hne] at happly ⊢
    cases happly
    exact rewritten_nil c.name b
  · obtain ⟨a, hfolding⟩ := exists_folding ho hb hne happly
    exact hfolding.rewritten hne happly

/-- `c'` is `c` but for the bodies of its methods, which are rewritten by one fold for each call that is
recorded as decrypted. -/
structure Pass.Preserves (p : Pass) (d : ClassDictionary) (c c' : ClassFile) : Prop where
  others : c' = { c with methods := c'.methods }
  methods : List.Forall₂ (fun m m' => m' = { m with body := m'.body } ∧
    Option.Rel (Rewritten c.name ((p.attempts d c m).filterMap Attempt.fold?)) m.body m'.body) c.methods c'.methods

theorem Pass.Treated.preserves (ho : p.obfuscator.Faithful) (h : p.Treated d c c') : p.Preserves d c c' := by
  obtain ⟨methods, rfl, hmethods⟩ := h
  exact ⟨rfl, hmethods.imp fun _ _ hm => foldMethod_rewritten ho hm⟩

/-- A run fails only for want of a budget, before the first class, and no class could make it fail; if it
returns, it leaves the classes in their order and changes nothing but what the folds say. -/
theorem run_preserves (ho : p.obfuscator.Faithful) (s : Summary) (cs : List ClassFile) :
    (∀ e, p.run s cs = .error (.error e) → p.config.limits.instructions = 0 ∧
      ∀ c e, p.treatClass (.ofList cs) c ≠ .error (.error e)) ∧
    ∀ r, p.run s cs = .ok r → List.Forall₂ (p.Preserves (.ofList cs)) cs r.classes ∧
      r.records = cs.flatMap fun c => c.methods.flatMap (p.records (.ofList cs) c) := by
  refine ⟨fun e h => ⟨?_, fun c e herror => ?_⟩, fun r h => ⟨?_, (run_spec h).records⟩⟩
  · by_contra hbudget
    cases ((run_eq_error hbudget).1 h).1
  · obtain ⟨m, -, hscan⟩ := exists_of_treatClass_error herror
    cases (scan_eq_error.1 hscan).1
  · exact (run_spec h).classes.imp fun _ _ hc => hc.preserves ho

/-- The call in `mirroredMain` is folded, and nothing else is done. -/
theorem run_preserves_mirrored : ∃ r c' m' b', standardPass.run .empty [mirror, mirrored] = .ok r ∧
    r.classes[1]? = some c' ∧ c'.methods[0]? = some m' ∧ m'.body = some b' ∧
    Rewritten "Mirrored" [⟨0, 1, [97]⟩] (mirroredMain.body.get rfl) b' := by
  have hfolds : standardPass.folds (.ofList [mirror, mirrored]) mirrored mirroredMain = [⟨0, 1, [97]⟩] := by
    decide +kernel
  obtain ⟨r, hr⟩ := exists_run_mirrored
  have hpreserves := ((run_preserves Obfuscator.faithful_allatori .empty [mirror, mirrored]).2 r hr).1
  obtain ⟨c', hc', hk⟩ := getElem?_of_forall₂ hpreserves (n := 1) rfl
  obtain ⟨m', ⟨-, hbody⟩, hj⟩ := getElem?_of_forall₂ hc'.methods (n := 0) rfl
  change Option.Rel (Rewritten "Mirrored" (standardPass.folds _ _ _)) (some (mirroredMain.body.get rfl))
    m'.body at hbody
  cases hb' : m'.body with
  | none => rw [hb'] at hbody; cases hbody
  | some b' =>
    rw [hb', hfolds] at hbody
    cases hbody with
    | some hrewritten => exact ⟨r, c', m', b', hr, hk, hj, hb', hrewritten⟩

end Decryption

end Jvm
