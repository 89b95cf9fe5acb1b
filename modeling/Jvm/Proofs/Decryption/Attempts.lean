import Jvm.Decryption.Pass
import Mathlib.Data.List.Forall2

/-!
# The calls that a scan looks at

A scan comes to the calls of a method one after the other (`Pass.tried`). At each it finds something, unless
the decryptor is run and cut off, and then so is the scan (`scan_eq_error`). If it ends, it has
looked at each call (`mem_attempts`), and what it noted is in their order (`ordered_attempts`).
-/

namespace Jvm.Decryption

/-- What is noted of a method: nothing where the scan does not end. -/
def Pass.noted (p : Pass) (d : ClassDictionary) (c : ClassFile) (m : Method) : List Note :=
  match p.scan d c m with
  | .ok notes => notes
  | .error _ => []

/-- The calls in a method that were looked at. -/
def Pass.attempts (p : Pass) (d : ClassDictionary) (c : ClassFile) (m : Method) : List Attempt :=
  (p.noted d c m).filterMap Note.attempt?

/-- What becomes of the calls in a method. -/
def Pass.records (p : Pass) (d : ClassDictionary) (c : ClassFile) (m : Method) : List Record :=
  (p.attempts d c m).map Attempt.record

/-- The folds of a method, in the order of their calls. -/
def Pass.folds (p : Pass) (d : ClassDictionary) (c : ClassFile) (m : Method) : List Fold :=
  (p.attempts d c m).filterMap Attempt.fold?

/-- The decryptor is run on the text for the call at instruction `n` of a method: the text is a literal that only
this call takes. -/
def Pass.Decrypts (p : Pass) (d : ClassDictionary) (c : ClassFile) (m : Method) (n : Nat)
    (decryptor : ClassFile × Method) (text : Units) : Prop :=
  ∃ b a kind call literal, m.body = some b ∧ Flow.analyze c.name b = .ok a ∧
    b.instructions[n]? = some ⟨.invoke kind, .method call⟩ ∧ call.descriptor = p.config.descriptor ∧
    p.obfuscator.decryptor? d call = some decryptor ∧
    a.callArguments? n = some [.literal (.string text) literal] ∧ a.consumers literal = 1

/-- The decryptor of a call in the method is cut off. -/
def Pass.CutOff (p : Pass) (d : ClassDictionary) (c : ClassFile) (m : Method) : Prop :=
  ∃ n decryptor text, p.Decrypts d c m n decryptor text ∧
    p.decrypt d c ⟨c.name, m.name, m.descriptor, n⟩ decryptor text = .error .outOfFuel

/-! ### Actions on lists that may fail -/

section Lists

variable {ε α β : Type} {f : α → Except ε β} {xs : List α}

theorem mapM_eq_ok {ys : List β} : xs.mapM f = .ok ys ↔ List.Forall₂ (fun x y => f x = .ok y) xs ys := by
  induction xs generalizing ys with
  | nil => cases ys <;> simp [pure, Except.pure]
  | cons x xs ih =>
    rw [List.mapM_cons]
    cases hx : f x with
    | error => cases ys <;> simp [bind, Except.bind, hx]
    | ok y =>
      cases hxs : xs.mapM f with
      | error => cases ys <;> simp [bind, Except.bind, ← ih, hxs, hx]
      | ok rest => cases ys <;> simp [bind, Except.bind, pure, Except.pure, ← ih, hxs, hx]

theorem exists_of_mapM_error {e : ε} (h : xs.mapM f = .error e) : ∃ x ∈ xs, f x = .error e := by
  induction xs with
  | nil => cases h
  | cons x xs ih =>
    rw [List.mapM_cons] at h
    cases hx : f x with
    | error e' =>
      simp only [hx, bind, Except.bind] at h
      cases h
      exact ⟨x, List.mem_cons_self, hx⟩
    | ok y =>
      cases hxs : xs.mapM f with
      | error e' =>
        simp only [hx, hxs, bind, Except.bind] at h
        cases h
        obtain ⟨z, hz, hfz⟩ := ih hxs
        exact ⟨z, List.mem_cons_of_mem x hz, hfz⟩
      | ok ys =>
        simp only [hx, hxs, bind, Except.bind] at h
        cases h

/-- Results that are there, all of them without a failure. -/
theorem mapM_id_eq_ok {rs : List (Except ε β)} {ys : List β} : rs.mapM id = .ok ys ↔ rs = ys.map .ok := by
  rw [mapM_eq_ok, ← List.forall₂_eq_eq_eq, List.forall₂_map_right_iff]
  rfl

end Lists

/-- Numbered entries are in the order of their numbers. -/
theorem pairwise_zipIdx {α : Type} (xs : List α) : xs.zipIdx.Pairwise fun x y => x.2 < y.2 := by
  rw [← List.pairwise_map (f := Prod.snd) (R := fun n m : Nat => n < m), List.zipIdx_map_snd]
  exact List.pairwise_lt_range'

/-! ### Looking at a call -/

variable {p : Pass} {d : ClassDictionary} {c : ClassFile} {m : Method} {b : MethodBody} {a : Analysis}

/-- What an instruction calls, if it is a call of a decryptor. -/
theorem callee?_eq_some {i : Instruction} {call : MemberRef} {decryptor : ClassFile × Method} :
    p.callee? d i = some (call, decryptor) ↔ (∃ kind, i = ⟨.invoke kind, .method call⟩) ∧
      call.descriptor = p.config.descriptor ∧ p.obfuscator.decryptor? d call = some decryptor := by
  obtain ⟨opcode, operand⟩ := i
  unfold Pass.callee?
  constructor
  · intro h
    split at h
    swap
    · cases h
    rename_i call' hoperand
    split at h
    swap
    · cases h
    rename_i hinvoke
    obtain ⟨decryptor', hdecryptor, hpair⟩ := Option.map_eq_some_iff.1 h
    cases hpair
    cases hoperand
    rw [Bool.and_eq_true, beq_iff_eq] at hinvoke
    obtain ⟨kind, rfl⟩ : ∃ kind, opcode = .invoke kind := by
      cases opcode <;> simp_all [Opcode.isInvoke]
    exact ⟨⟨kind, rfl⟩, hinvoke.2, hdecryptor⟩
  · rintro ⟨⟨kind, hi⟩, hdescriptor, hdecryptor⟩
    cases hi
    simp [Opcode.isInvoke, hdescriptor, hdecryptor]

theorem attempt?_eq_some {i : Instruction} {n : Nat} {result : Except Stop Attempt} :
    p.attempt? d c m a i n = some result ↔
    ∃ call decryptor arguments, p.callee? d i = some (call, decryptor) ∧
      a.callArguments? n = some arguments ∧
      result = (p.finding d c ⟨c.name, m.name, m.descriptor, n⟩ a decryptor arguments).map
        (⟨call.owner ++ "." ++ call.name, ⟨c.name, m.name, m.descriptor, n⟩, ·⟩) := by
  simp only [Pass.attempt?, bind, Option.bind_eq_some_iff, pure, Option.some.injEq]
  constructor
  · rintro ⟨⟨call, decryptor⟩, hcallee, arguments, harguments, hr⟩
    exact ⟨call, decryptor, arguments, hcallee, harguments, hr.symm⟩
  · rintro ⟨call, decryptor, arguments, hcallee, harguments, hr⟩
    exact ⟨⟨call, decryptor⟩, hcallee, arguments, harguments, hr.symm⟩

/-- What is found at a call that was looked at to the end. -/
theorem finding_of_attempt? {i : Instruction} {n : Nat} {t : Attempt}
    (h : p.attempt? d c m a i n = some (.ok t)) :
    ∃ call decryptor arguments, p.callee? d i = some (call, decryptor) ∧
      a.callArguments? n = some arguments ∧ t.decryptor = call.owner ++ "." ++ call.name ∧
      t.site = ⟨c.name, m.name, m.descriptor, n⟩ ∧ p.finding d c t.site a decryptor arguments = .ok t.finding := by
  obtain ⟨call, decryptor, arguments, hcallee, harguments, hresult⟩ := attempt?_eq_some.1 h
  cases hfinding : p.finding d c ⟨c.name, m.name, m.descriptor, n⟩ a decryptor arguments with
  | error => rw [hfinding] at hresult; cases hresult
  | ok finding =>
    rw [hfinding] at hresult
    cases hresult
    exact ⟨call, decryptor, arguments, hcallee, harguments, rfl, rfl, hfinding⟩

/-- A call that is decrypted has a literal of its own, on which the decryptor returned a text. -/
theorem finding_decrypted {site : CallSite} {decryptor : ClassFile × Method} {arguments : List Frame}
    {literal : Nat} {plain : Units}
    (h : p.finding d c site a decryptor arguments = .ok (.decrypted literal plain)) :
    ∃ text, arguments = [.literal (.string text) literal] ∧ a.consumers literal = 1 ∧
      p.decrypt d c site decryptor text = .ok (some plain) := by
  unfold Pass.finding at h
  split at h
  swap
  · cases h
  rename_i text literal'
  split at h
  swap
  · cases h
  rename_i hconsumers
  split at h <;> cases h
  rename_i hdecrypt
  exact ⟨text, rfl, hconsumers, hdecrypt⟩

/-- Nothing is found at a call exactly if its decryptor is run and cut off. -/
theorem finding_eq_error {site : CallSite} {decryptor : ClassFile × Method} {arguments : List Frame} {stop : Stop} :
    p.finding d c site a decryptor arguments = .error stop ↔ stop = .outOfFuel ∧
      ∃ text literal, arguments = [.literal (.string text) literal] ∧ a.consumers literal = 1 ∧
        p.decrypt d c site decryptor text = .error .outOfFuel := by
  constructor
  · intro h
    unfold Pass.finding at h
    split at h
    swap
    · cases h
    rename_i text literal
    split at h
    swap
    · cases h
    rename_i hconsumers
    split at h <;> cases h
    rename_i hdecrypt
    exact ⟨rfl, text, literal, rfl, hconsumers, hdecrypt⟩
  · rintro ⟨rfl, text, literal, rfl, hconsumers, hdecrypt⟩
    rw [Pass.finding, if_pos hconsumers, hdecrypt]

theorem fold?_eq_some {t : Attempt} {f : Fold} : t.fold? = some f ↔
    f.call = t.site.index ∧ t.finding = .decrypted f.literal f.plain := by
  obtain ⟨literal, call, plain⟩ := f
  obtain ⟨decryptor, site, finding⟩ := t
  cases finding <;> simp [Attempt.fold?, eq_comm, and_left_comm]

/-! ### The scan of a method -/

theorem mem_tried {result : Except Stop Attempt} : result ∈ p.tried d c m b a ↔
    ∃ i n, b.instructions[n]? = some i ∧ p.attempt? d c m a i n = some result := by
  simp only [Pass.tried, List.mem_filterMap, Prod.exists, List.mem_zipIdx_iff_getElem?, Array.getElem?_toList]

theorem scan_eq (hb : m.body = some b) (ha : Flow.analyze c.name b = .ok a) :
    p.scan d c m = ((p.tried d c m b a).mapM id).map (List.map .call) := by
  rw [Pass.scan]
  simp only [hb, ha]

theorem noted_eq {notes : List Note} (h : p.scan d c m = .ok notes) : p.noted d c m = notes := by
  rw [Pass.noted, h]

/-- All calls are looked at, if the stack of the method is known and the scan ends. -/
theorem attempts_cases (p : Pass) (d : ClassDictionary) (c : ClassFile) (m : Method) :
    (p.attempts d c m = [] ∧
      ((∃ stop, p.scan d c m = .error stop) ∨ ∀ b a, m.body = some b → Flow.analyze c.name b ≠ .ok a)) ∨
      ∃ b a, m.body = some b ∧ Flow.analyze c.name b = .ok a ∧ p.tried d c m b a = (p.attempts d c m).map .ok := by
  cases hb : m.body with
  | none =>
    refine .inl ⟨?_, .inr nofun⟩
    simp only [Pass.attempts, Pass.noted, Pass.scan, hb, List.filterMap_nil]
  | some b =>
    cases ha : Flow.analyze c.name b with
    | error cause =>
      refine .inl ⟨?_, .inr fun b' a' hb' ha' => ?_⟩
      · simp only [Pass.attempts, Pass.noted, Pass.scan, hb, ha]
        rfl
      · cases hb'
        cases ha.symm.trans ha'
    | ok a =>
      have hscan := scan_eq (p := p) (d := d) hb ha
      cases hmap : (p.tried d c m b a).mapM id with
      | error stop =>
        rw [hmap] at hscan
        refine .inl ⟨?_, .inl ⟨stop, hscan⟩⟩
        rw [Pass.attempts, Pass.noted, hscan]
        rfl
      | ok attempts =>
        rw [hmap] at hscan
        have hattempts : p.attempts d c m = attempts := by
          rw [Pass.attempts, noted_eq hscan, List.filterMap_map]
          exact List.filterMap_some
        exact .inr ⟨b, a, rfl, ha, hattempts ▸ mapM_id_eq_ok.1 hmap⟩

theorem attempts_unreadable (h : ∀ b a, m.body = some b → Flow.analyze c.name b ≠ .ok a) :
    p.attempts d c m = [] := by
  obtain ⟨hnil, -⟩ | ⟨b, a, hb, ha, -⟩ := attempts_cases p d c m
  · exact hnil
  · exact absurd ha (h b a hb)

/-- An instruction at which a call is looked at. -/
theorem exists_attempt {t : Attempt} (h : t ∈ p.attempts d c m) : ∃ b a i n, m.body = some b ∧
    Flow.analyze c.name b = .ok a ∧ b.instructions[n]? = some i ∧ p.attempt? d c m a i n = some (.ok t) := by
  obtain ⟨hnil, -⟩ | ⟨b, a, hb, ha, htried⟩ := attempts_cases p d c m
  · rw [hnil] at h
    cases h
  · obtain ⟨i, n, hi, hattempt⟩ := mem_tried.1 (htried ▸ List.mem_map_of_mem h)
    exact ⟨b, a, i, n, hb, ha, hi, hattempt⟩

/-- If the scan of a method ends, then so does what it does at each call. -/
theorem mem_attempts {notes : List Note} (hscan : p.scan d c m = .ok notes) {i : Instruction}
    {n : Nat} {result : Except Stop Attempt} (hb : m.body = some b) (ha : Flow.analyze c.name b = .ok a)
    (hi : b.instructions[n]? = some i) (h : p.attempt? d c m a i n = some result) :
    ∃ t ∈ p.attempts d c m, result = .ok t := by
  obtain ⟨-, ⟨stop, hstop⟩ | hnone⟩ | ⟨b', a', hb', ha', htried⟩ := attempts_cases p d c m
  · cases hscan.symm.trans hstop
  · exact absurd ha (hnone b a hb)
  · obtain rfl := Option.some.inj (hb.symm.trans hb')
    obtain rfl := Except.ok.inj (ha.symm.trans ha')
    obtain ⟨t, ht, rfl⟩ := List.mem_map.1 (htried ▸ mem_tried.2 ⟨i, n, hi, h⟩)
    exact ⟨t, ht, rfl⟩

/-- A call at which a scan stops. -/
theorem exists_of_scan_error {stop : Stop} (h : p.scan d c m = .error stop) : ∃ b a i n, m.body = some b ∧
    Flow.analyze c.name b = .ok a ∧ b.instructions[n]? = some i ∧ p.attempt? d c m a i n = some (.error stop) := by
  cases hb : m.body with
  | none => simp only [Pass.scan, hb] at h; cases h
  | some b =>
    cases ha : Flow.analyze c.name b with
    | error => simp only [Pass.scan, hb, ha] at h; cases h
    | ok a =>
      rw [scan_eq hb ha] at h
      cases hmap : (p.tried d c m b a).mapM id with
      | ok => rw [hmap] at h; cases h
      | error e =>
        rw [hmap] at h
        cases h
        obtain ⟨result, hresult, rfl⟩ := exists_of_mapM_error hmap
        obtain ⟨i, n, hi, hattempt⟩ := mem_tried.1 hresult
        exact ⟨b, a, i, n, rfl, ha, hi, hattempt⟩

/-- A scan is cut off exactly if a decryptor is. -/
theorem scan_eq_error {stop : Stop} : p.scan d c m = .error stop ↔ stop = .outOfFuel ∧ p.CutOff d c m := by
  have hstops : ∀ {stop}, p.scan d c m = .error stop → stop = .outOfFuel ∧ p.CutOff d c m := by
    intro stop h
    obtain ⟨b, a, i, n, hb, ha, hi, hattempt⟩ := exists_of_scan_error h
    obtain ⟨call, decryptor, arguments, hcallee, harguments, hresult⟩ := attempt?_eq_some.1 hattempt
    obtain ⟨⟨kind, rfl⟩, hdescriptor, hdecryptor⟩ := callee?_eq_some.1 hcallee
    cases hfinding : p.finding d c ⟨c.name, m.name, m.descriptor, n⟩ a decryptor arguments with
    | ok => rw [hfinding] at hresult; cases hresult
    | error e =>
      rw [hfinding] at hresult
      cases hresult
      obtain ⟨rfl, text, literal, rfl, hconsumers, hdecrypt⟩ := finding_eq_error.1 hfinding
      exact ⟨rfl, n, decryptor, text, ⟨b, a, kind, call, literal, hb, ha, hi, hdescriptor, hdecryptor, harguments,
        hconsumers⟩, hdecrypt⟩
  refine ⟨hstops, ?_⟩
  rintro ⟨rfl, n, decryptor, text, ⟨b, a, kind, call, literal, hb, ha, hi, hdescriptor, hdecryptor, harguments,
    hconsumers⟩, hdecrypt⟩
  have hfinding := finding_eq_error.2 ⟨rfl, text, literal, rfl, hconsumers, hdecrypt⟩
  have hattempt : p.attempt? d c m a ⟨.invoke kind, .method call⟩ n = some (.error .outOfFuel) :=
    attempt?_eq_some.2 ⟨call, decryptor, _, callee?_eq_some.2 ⟨⟨kind, rfl⟩, hdescriptor, hdecryptor⟩, harguments,
      by rw [hfinding]; rfl⟩
  cases hscan : p.scan d c m with
  | error stop => rw [(hstops hscan).1]
  | ok notes =>
    obtain ⟨t, -, ht⟩ := mem_attempts hscan hb ha hi hattempt
    cases ht

theorem mem_noted {t : Attempt} : .call t ∈ p.noted d c m ↔ t ∈ p.attempts d c m := by
  rw [Pass.attempts, List.mem_filterMap]
  constructor
  · exact fun h => ⟨_, h, rfl⟩
  · rintro ⟨note, hnote, ht⟩
    obtain rfl : note = .call t := by cases note <;> cases ht; rfl
    exact hnote

theorem mem_folds {f : Fold} : f ∈ p.folds d c m ↔ ∃ t ∈ p.attempts d c m, t.fold? = some f :=
  List.mem_filterMap

/-- The calls are looked at from the first to the last. -/
theorem ordered_attempts : ((p.attempts d c m).map (·.site.index)).Pairwise (· < ·) := by
  obtain ⟨hnil, -⟩ | ⟨b, a, -, -, heq⟩ := attempts_cases p d c m
  · rw [hnil]
    exact .nil
  · have hresults : ((p.attempts d c m).map Except.ok).Pairwise fun (r r' : Except Stop Attempt) =>
        ∀ t t', r = .ok t → r' = .ok t' → t.site.index < t'.site.index := by
      rw [← heq, Pass.tried, List.pairwise_filterMap]
      refine (pairwise_zipIdx _).imp fun {x y} hxy r hr r' hr' t t' ht ht' => ?_
      subst ht ht'
      obtain ⟨_, _, _, -, -, -, hsite, -⟩ := finding_of_attempt? hr
      obtain ⟨_, _, _, -, -, -, hsite', -⟩ := finding_of_attempt? hr'
      rw [hsite, hsite']
      exact hxy
    rw [List.pairwise_map] at hresults ⊢
    exact hresults.imp fun h => h _ _ rfl rfl

theorem ordered_folds : ((p.folds d c m).map Fold.call).Pairwise (· < ·) := by
  have hattempts := ordered_attempts (p := p) (d := d) (c := c) (m := m)
  rw [List.pairwise_map] at hattempts ⊢
  refine List.pairwise_filterMap.2 (hattempts.imp fun {t t'} hlt f hf f' hf' => ?_)
  rw [(fold?_eq_some.1 hf).1, (fold?_eq_some.1 hf').1]
  exact hlt

end Jvm.Decryption
