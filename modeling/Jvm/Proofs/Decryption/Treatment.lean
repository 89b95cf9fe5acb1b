import Jvm.Proofs.Decryption.Removal
import Jvm.Proofs.Decryption.Sites

/-!
# What a run does, class by class and method by method

A run never fails on a method: its folds remove calls at different places inside of the body
(`exists_foldMethod`). So a run with a budget returns unless a decryptor is cut off (`run_eq_error`), and what
it leaves is read off the classes (`run_spec`): each class is `Treated`, which replaces bodies and nothing
else, and the records are those of all methods in order.
-/

namespace Jvm.Decryption

/-! ### Lists side by side -/

section Lists

variable {α β : Type}

theorem exists_of_forall₂ {R : α → β → Prop} {xs : List α} {ys : List β} {y : β}
    (h : List.Forall₂ R xs ys) (hy : y ∈ ys) : ∃ x ∈ xs, R x y := by
  induction h with
  | nil => cases hy
  | @cons x z xs ys hxz _ ih =>
    rcases List.mem_cons.1 hy with rfl | hy
    · exact ⟨x, List.mem_cons_self, hxz⟩
    · obtain ⟨x', hx', hxy⟩ := ih hy
      exact ⟨x', List.mem_cons_of_mem _ hx', hxy⟩

theorem getElem?_of_forall₂ {R : α → β → Prop} {xs : List α} {ys : List β} (h : List.Forall₂ R xs ys)
    {n : Nat} {x : α} (hx : xs[n]? = some x) : ∃ y, R x y ∧ ys[n]? = some y := by
  obtain ⟨hlength, hget⟩ := List.forall₂_iff_get.1 h
  obtain ⟨hn, rfl⟩ := List.getElem?_eq_some_iff.1 hx
  exact ⟨ys[n], hget n hn (by omega), List.getElem?_eq_getElem (by omega)⟩

theorem exists_of_forall₂_left {R : α → β → Prop} {xs : List α} {ys : List β} {x : α}
    (h : List.Forall₂ R xs ys) (hx : x ∈ xs) : ∃ y, R x y := by
  obtain ⟨y, -, hxy⟩ := exists_of_forall₂ h.flip hx
  exact ⟨y, hxy⟩

/-- A list of results beside what each of them adds to a longer list. -/
theorem forall₂_unzip {γ : Type} {R : α → β → Prop} {g : α → List γ} {xs : List α} {rs : List (β × List γ)}
    (h : List.Forall₂ (fun x r => R x r.1 ∧ r.2 = g x) xs rs) :
    List.Forall₂ R xs (rs.map (·.1)) ∧ (rs.map (·.2)).flatten = xs.flatMap g := by
  induction h with
  | nil => exact ⟨.nil, rfl⟩
  | cons hxr _ ih =>
    exact ⟨.cons hxr.1 ih.1, by rw [List.map_cons, List.flatten_cons, hxr.2, ih.2, List.flatMap_cons]⟩

end Lists

variable {p : Pass} {d : ClassDictionary} {c c' : ClassFile} {m m' : Method} {b : MethodBody}

/-! ### Methods -/

theorem folds_unreadable (h : ∀ b a, m.body = some b → Flow.analyze c.name b ≠ .ok a) : p.folds d c m = [] := by
  rw [Pass.folds, attempts_unreadable h, List.filterMap_nil]

theorem call_lt {f : Fold} (hb : m.body = some b) (hf : f ∈ p.folds d c m) : f.call < b.size := by
  obtain ⟨t, ht, hfold⟩ := mem_folds.1 hf
  obtain ⟨b', a, i, n, hb', -, hi, hattempt⟩ := exists_attempt ht
  obtain rfl : b = b' := Option.some.inj (hb.symm.trans hb')
  exact (attempt_spec hattempt hfold).1 ▸ (Array.getElem?_eq_some_iff.1 hi).1

theorem foldMethod_eq_ok : Pass.foldMethod (p.noted d c m) m = .ok m' ↔
    (m.body = none ∧ m' = m) ∨ ∃ b b', m.body = some b ∧ Fold.applyAll (p.folds d c m) b = .ok b' ∧
      m' = { m with body := some b' } := by
  rw [Pass.foldMethod]
  cases hb : m.body with
  | none => simp [eq_comm]
  | some b =>
    change (do return { m with body := some (← Fold.applyAll (p.folds d c m) b) }) = Except.ok m' ↔ _
    cases happly : Fold.applyAll (p.folds d c m) b with
    | error => simp [bind, Except.bind, happly]
    | ok b' => simp [bind, Except.bind, pure, Except.pure, happly, eq_comm]

theorem foldMethod_body (hb : m.body = some b) (h : Pass.foldMethod (p.noted d c m) m = .ok m') :
    ∃ b', m'.body = some b' ∧ Fold.applyAll (p.folds d c m) b = .ok b' := by
  obtain ⟨hnone, -⟩ | ⟨b₀, b', hb₀, happly, rfl⟩ := foldMethod_eq_ok.1 h
  · rw [hb] at hnone
    cases hnone
  · obtain rfl := Option.some.inj (hb.symm.trans hb₀)
    exact ⟨b', rfl, happly⟩

/-- A method is always treated to the end. -/
theorem exists_foldMethod (p : Pass) (d : ClassDictionary) (c : ClassFile) (m : Method) :
    ∃ m', Pass.foldMethod (p.noted d c m) m = .ok m' := by
  cases hb : m.body with
  | none => exact ⟨m, foldMethod_eq_ok.2 (.inl ⟨hb, rfl⟩)⟩
  | some b =>
    obtain ⟨b', hb', -⟩ := Fold.exists_applyAll ordered_folds fun f hf => call_lt (p := p) (d := d) (c := c)
      hb hf
    exact ⟨_, foldMethod_eq_ok.2 (.inr ⟨b, b', hb, hb', rfl⟩)⟩

/-! ### Classes -/

/-- `c'` is `c` after its methods were treated. -/
def Pass.Treated (p : Pass) (d : ClassDictionary) (c c' : ClassFile) : Prop :=
  ∃ methods, c' = { c with methods } ∧
    List.Forall₂ (fun m m' => Pass.foldMethod (p.noted d c m) m = .ok m') c.methods methods

theorem Pass.Treated.method (h : p.Treated d c c') {j : Nat} (hm : c.methods[j]? = some m) :
    ∃ m', Pass.foldMethod (p.noted d c m) m = .ok m' ∧ c'.methods[j]? = some m' := by
  obtain ⟨methods, rfl, hmethods⟩ := h
  exact getElem?_of_forall₂ hmethods hm

/-- What is noted of a class. -/
def Pass.notes (p : Pass) (d : ClassDictionary) (c : ClassFile) : List Note :=
  c.methods.flatMap (p.noted d c)

/-- A method and what is noted of it. -/
def Pass.treatMethod (p : Pass) (d : ClassDictionary) (c : ClassFile) (m : Method) :
    Except Stop (Method × List Note) := do
  let notes ← p.scan d c m
  return (← (Pass.foldMethod notes m).mapError .error, notes)

theorem treatMethod_of_scan {notes : List Note} (hscan : p.scan d c m = .ok notes)
    (hfold : Pass.foldMethod notes m = .ok m') : p.treatMethod d c m = .ok (m', notes) := by
  simp only [Pass.treatMethod, hscan, hfold, bind, Except.bind, Except.mapError]
  rfl

/-- A method is treated exactly if its scan ends. -/
theorem treatMethod_eq_ok {r : Method × List Note} : p.treatMethod d c m = .ok r ↔
    p.scan d c m = .ok (p.noted d c m) ∧ Pass.foldMethod (p.noted d c m) m = .ok r.1 ∧ r.2 = p.noted d c m := by
  obtain ⟨m', notes⟩ := r
  constructor
  · intro h
    cases hscan : p.scan d c m with
    | error stop => simp only [Pass.treatMethod, hscan] at h; cases h
    | ok noted =>
      cases hfold : Pass.foldMethod noted m with
      | error e => simp only [Pass.treatMethod, hscan, hfold, bind, Except.bind, Except.mapError] at h; cases h
      | ok m₁ =>
        cases (treatMethod_of_scan hscan hfold).symm.trans h
        rw [noted_eq hscan]
        exact ⟨rfl, hfold, rfl⟩
  · rintro ⟨hscan, hfold, rfl⟩
    exact treatMethod_of_scan hscan hfold

/-- The treatment of a method stops exactly if its scan does, since its folds can always be made. -/
theorem treatMethod_eq_error {stop : Stop} : p.treatMethod d c m = .error stop ↔ p.scan d c m = .error stop := by
  constructor
  · intro h
    cases hscan : p.scan d c m with
    | error stop' => simp only [Pass.treatMethod, hscan] at h; cases h; rfl
    | ok notes =>
      obtain ⟨m', hm'⟩ := exists_foldMethod p d c m
      rw [noted_eq hscan] at hm'
      cases (treatMethod_of_scan hscan hm').symm.trans h
  · intro h
    simp only [Pass.treatMethod, h]
    rfl

theorem treatClass_eq : p.treatClass d c = (c.methods.mapM (p.treatMethod d c)).map
    fun treated => ({ c with methods := treated.map (·.1) }, (treated.map (·.2)).flatten) := by
  change (c.methods.mapM (p.treatMethod d c) >>= fun treated =>
    pure ({ c with methods := treated.map Prod.fst }, (treated.map Prod.snd).flatten)) = _
  cases c.methods.mapM (p.treatMethod d c) <;> rfl

/-- The scans of all methods of a class end. -/
def Pass.Scans (p : Pass) (d : ClassDictionary) (c : ClassFile) : Prop :=
  ∀ m ∈ c.methods, p.scan d c m = .ok (p.noted d c m)

theorem treatClass_spec {notes : List Note} (h : p.treatClass d c = .ok (c', notes)) :
    p.Treated d c c' ∧ p.Scans d c ∧ notes = p.notes d c := by
  rw [treatClass_eq] at h
  cases htreated : c.methods.mapM (p.treatMethod d c) with
  | error => rw [htreated] at h; cases h
  | ok treated =>
    rw [htreated] at h
    cases h
    have hmethods := mapM_eq_ok.1 htreated
    obtain ⟨hfolded, hnotes⟩ := forall₂_unzip (R := fun m m' => Pass.foldMethod (p.noted d c m) m = .ok m')
      (hmethods.imp fun _ _ hm => (treatMethod_eq_ok.1 hm).2)
    refine ⟨⟨_, rfl, hfolded⟩, fun m hm => ?_, hnotes⟩
    obtain ⟨r, hr⟩ := exists_of_forall₂_left hmethods hm
    exact (treatMethod_eq_ok.1 hr).1

/-- The treatment of a class stops only if the scan of a method does. -/
theorem exists_of_treatClass_error {stop : Stop} (h : p.treatClass d c = .error stop) :
    ∃ m ∈ c.methods, p.scan d c m = .error stop := by
  rw [treatClass_eq] at h
  cases htreated : c.methods.mapM (p.treatMethod d c) with
  | ok => rw [htreated] at h; cases h
  | error e =>
    rw [htreated] at h
    cases h
    obtain ⟨m, hm, herror⟩ := exists_of_mapM_error htreated
    exact ⟨m, hm, treatMethod_eq_error.1 herror⟩

/-! ### Runs -/

/-- The calls that were looked at in a run. -/
def Pass.Run.attempts (r : Pass.Run) : List Attempt := r.notes.filterMap Note.attempt?

/-- What became of the calls in a run. -/
def Pass.Run.records (r : Pass.Run) : List Record := r.attempts.map Attempt.record

/-- What a run leaves of the classes and of the summary. -/
structure Pass.Leaves (p : Pass) (s : Summary) (cs : List ClassFile) (r : Pass.Run) : Prop where
  classes : List.Forall₂ (p.Treated (.ofList cs)) cs r.classes
  scans : ∀ c ∈ cs, p.Scans (.ofList cs) c
  notes : r.notes = cs.flatMap (p.notes (.ofList cs)) ++ [.finished p.obfuscator.name r.summary r.decrypted]
  summary : r.summary = s.recordAll r.records
  decrypted : r.decrypted = (r.attempts.filterMap Attempt.fold?).length

variable {s : Summary} {cs : List ClassFile} {r : Pass.Run}

theorem run_spec (h : p.run s cs = .ok r) : p.Leaves s cs r := by
  rw [Pass.run] at h
  split at h
  · cases h
  cases htreated : cs.mapM (p.treatClass (.ofList cs)) with
  | error => simp only [htreated] at h; cases h
  | ok treated =>
    simp only [htreated] at h
    cases h
    have hall := mapM_eq_ok.1 htreated
    obtain ⟨hclasses, hnotes⟩ := forall₂_unzip (R := p.Treated (.ofList cs))
      (hall.imp fun _ _ hc => ⟨(treatClass_spec hc).1, (treatClass_spec hc).2.2⟩)
    refine ⟨hclasses, fun c hc => ?_, by rw [← hnotes], ?_, ?_⟩
    · obtain ⟨r, hr⟩ := exists_of_forall₂_left hall hc
      exact (treatClass_spec hr).2.1
    all_goals
      simp only [Pass.Run.records, Pass.Run.attempts, List.filterMap_append, List.filterMap_cons, List.filterMap_nil,
        Note.attempt?, List.append_nil]

/-- The calls that a run looks at are those of the methods in their order. -/
theorem Pass.Leaves.attempts (h : p.Leaves s cs r) :
    r.attempts = cs.flatMap fun c => c.methods.flatMap (p.attempts (.ofList cs) c) := by
  simp only [Pass.Run.attempts, h.notes, List.filterMap_append, List.filterMap_flatMap, Pass.notes]
  rw [List.filterMap_cons, List.filterMap_nil]
  exact List.append_nil _

theorem Pass.Leaves.records (h : p.Leaves s cs r) :
    r.records = cs.flatMap fun c => c.methods.flatMap (p.records (.ofList cs) c) := by
  simp only [Pass.Run.records, h.attempts, List.map_flatMap]
  rfl

/-- A call that a run looked at stands in one of the classes. -/
theorem mem_notes (h : p.run s cs = .ok r) {t : Attempt} (ht : .call t ∈ r.notes) :
    ∃ c ∈ cs, ∃ m ∈ c.methods, t ∈ p.attempts (.ofList cs) c m := by
  rw [(run_spec h).notes, List.mem_append, List.mem_singleton] at ht
  obtain ⟨c, hc, hnotes⟩ := List.mem_flatMap.1 (ht.resolve_right nofun)
  obtain ⟨m, hm, hnoted⟩ := List.mem_flatMap.1 hnotes
  exact ⟨c, hc, m, hm, mem_noted.1 hnoted⟩

/-- A run with a budget is cut off exactly if a decryptor is, and it does not end otherwise than by returning. -/
theorem run_eq_error (hbudget : p.config.limits.instructions ≠ 0) {stop : Stop} : p.run s cs = .error stop ↔
    stop = .outOfFuel ∧ ∃ c ∈ cs, ∃ m ∈ c.methods, p.CutOff (.ofList cs) c m := by
  have hstops : ∀ {stop}, p.run s cs = .error stop →
      stop = .outOfFuel ∧ ∃ c ∈ cs, ∃ m ∈ c.methods, p.CutOff (.ofList cs) c m := by
    intro stop h
    rw [Pass.run, if_neg hbudget] at h
    dsimp only at h
    cases htreated : cs.mapM (p.treatClass (.ofList cs)) with
    | ok => simp only [htreated] at h; cases h
    | error e =>
      simp only [htreated] at h
      cases h
      obtain ⟨c, hc, herror⟩ := exists_of_mapM_error htreated
      obtain ⟨m, hm, hscan⟩ := exists_of_treatClass_error herror
      obtain ⟨rfl, hcut⟩ := scan_eq_error.1 hscan
      exact ⟨rfl, c, hc, m, hm, hcut⟩
  refine ⟨hstops, ?_⟩
  rintro ⟨rfl, c, hc, m, hm, hcut⟩
  cases hrun : p.run s cs with
  | error stop => rw [(hstops hrun).1]
  | ok r =>
    have hscan := (run_spec hrun).scans c hc m hm
    cases hscan.symm.trans (scan_eq_error.2 ⟨rfl, hcut⟩)

end Jvm.Decryption
