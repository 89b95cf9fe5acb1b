import Jvm.Proofs.Decryption.Accounting
import Jvm.Proofs.Decryption.Preservation

/-!
# Decryptors that may be removed

A decryptor is `removable` if all of its calls that were looked at are decrypted. A run looks at the calls
that `Pass.Finds` describes, and passes over those that no path reaches or whose stack is not known, without
a record. So a removable decryptor may still be called: exactly where it was called before at a place that
was passed over (`removable_iff`). `removable_called` is a program where this happens.
-/

namespace Jvm.Decryption

/-! ### The removable decryptors of a summary -/

theorem Summary.mem_decryptors {s : Summary} {name : String} :
    name ∈ s.decryptors ↔ ∃ r ∈ s.records, r.decryptor = name := by
  rw [decryptors, List.mem_mergeSort, List.mem_eraseDups, List.mem_map]

theorem Summary.has_iff {s : Summary} {name : String} {kind : Outcome → Bool} :
    s.has name kind = true ↔ ∃ r ∈ s.records, r.decryptor = name ∧ kind r.outcome = true := by
  simp [has]

theorem Outcome.isDecrypted_iff (o : Outcome) : o.isDecrypted = true ↔ o.isFailed = false ∧ o.isSkipped = false := by
  cases o <;> simp [isDecrypted, isFailed, isSkipped, text?, reason?]

/-- A decryptor is removable if it has records, and all of them are of calls that were decrypted. -/
theorem Summary.mem_removable {s : Summary} {name : String} : name ∈ s.removable ↔
    (∃ r ∈ s.records, r.decryptor = name) ∧ ∀ r ∈ s.records, r.decryptor = name → r.outcome.isDecrypted = true := by
  simp only [removable, List.mem_filter, mem_decryptors, Bool.and_eq_true, Bool.not_eq_true', ← Bool.not_eq_true,
    has_iff, Outcome.isDecrypted_iff, not_exists, not_and]
  constructor
  · rintro ⟨hname, ⟨-, hfailed⟩, hskipped⟩
    exact ⟨hname, fun r hr hd => ⟨hfailed r hr hd, hskipped r hr hd⟩⟩
  · rintro ⟨⟨r, hr, hd⟩, hall⟩
    exact ⟨⟨r, hr, hd⟩, ⟨⟨r, hr, hd, hall r hr hd⟩, fun r hr hd => (hall r hr hd).1⟩, fun r hr hd => (hall r hr hd).2⟩

/-! ### Calls that are left -/

/-- Instruction `n` of a method is a call. -/
def CallsAt (m : Method) (n : Nat) (call : MemberRef) : Prop :=
  ∃ b kind, m.body = some b ∧ b.instructions[n]? = some ⟨.invoke kind, .method call⟩

theorem eq_of_retarget {f : Nat → Nat} {i : Instruction} {kind : InvokeKind} {call : MemberRef}
    (h : i.retarget f = ⟨.invoke kind, .method call⟩) : i = ⟨.invoke kind, .method call⟩ := by
  obtain ⟨opcode, operand⟩ := i
  cases operand <;> cases h
  rfl

theorem exists_iff_of_forall₂ {α β : Type} {P : α → Prop} {Q : β → Prop} {xs : List α} {ys : List β}
    (h : List.Forall₂ (fun x y => P x ↔ Q y) xs ys) : (∃ x ∈ xs, P x) ↔ ∃ y ∈ ys, Q y := by
  induction h with
  | nil => simp
  | cons hxy _ ih => rw [List.exists_mem_cons_iff, List.exists_mem_cons_iff, hxy, ih]

variable {p : Pass} {d : ClassDictionary} {s : Summary} {cs : List ClassFile} {c : ClassFile} {m m' : Method}
  {r : Pass.Run} {call : MemberRef}

/-- The calls in a rewritten body are those before that were not folded. -/
theorem callsAt_rewritten {owner : String} {folds : List Fold}
    (h : Option.Rel (Rewritten owner folds) m.body m'.body) :
    (∃ n, CallsAt m n call ∧ n ∉ calls folds) ↔ ∃ n, CallsAt m' n call := by
  constructor
  · rintro ⟨n, ⟨b, kind, hb, hi⟩, hn⟩
    rw [hb] at h
    cases hb' : m'.body with
    | none => rw [hb'] at h; cases h
    | some b' =>
      rw [hb'] at h
      cases h with
      | some h =>
        have hl : n ∉ folds.map Fold.literal := by
          intro hl
          obtain ⟨f, hf, rfl⟩ := List.mem_map.1 hl
          obtain ⟨-, ⟨text, hload⟩, -⟩ := h.replaced f hf
          cases hi.symm.trans hload
        exact ⟨_, b', kind, hb', h.kept n _ hn hl hi⟩
  · rintro ⟨n', b', kind, hb', hi'⟩
    rw [hb'] at h
    cases hb : m.body with
    | none => rw [hb] at h; cases h
    | some b =>
      rw [hb] at h
      cases h with
      | some h =>
        obtain ⟨n, i, hn, hi, rfl⟩ := h.onto n' _ hi'
        have hl : n ∉ folds.map Fold.literal := by
          intro hl
          obtain ⟨f, hf, rfl⟩ := List.mem_map.1 hl
          cases hi'.symm.trans (h.replaced f hf).2.2
        have hsame := Option.some.inj (hi'.symm.trans (h.kept n i hn hl hi))
        exact ⟨n, ⟨b, kind, hb, hi.trans (congrArg some (eq_of_retarget hsame.symm))⟩, hn⟩

/-- A call of a decryptor that is removable is folded exactly if it was found. -/
theorem mem_calls_iff {notes : List Note} (hscan : p.scan d c m = .ok notes)
    (hdecrypted : ∀ record ∈ p.records d c m,
      record.decryptor = call.owner ++ "." ++ call.name → record.outcome.isDecrypted = true)
    {n : Nat} (hcall : CallsAt m n call) :
    n ∈ calls ((p.attempts d c m).filterMap Attempt.fold?) ↔ p.Finds d c m n call := by
  obtain ⟨b, kind, hb, hi⟩ := hcall
  have hsame : ∀ {call'}, p.Finds d c m n call' → call' = call := by
    rintro call' ⟨b', a, kind', hb', -, -, hi', -⟩
    obtain rfl := Option.some.inj (hb.symm.trans hb')
    cases hi.symm.trans hi'
    rfl
  constructor
  · intro hn
    obtain ⟨f, hf, rfl⟩ := List.mem_map.1 hn
    obtain ⟨t, ht, hfold⟩ := List.mem_filterMap.1 hf
    obtain ⟨call', hfinds, -⟩ := tells_of_mem (List.mem_map_of_mem ht)
    rw [(fold?_eq_some.1 hfold).1] at hsame ⊢
    exact hsame hfinds ▸ hfinds
  · intro hfinds
    obtain ⟨record, hrecord, hindex⟩ := List.mem_map.1 ((mem_found hscan).2 ⟨call, hfinds⟩)
    obtain ⟨t, ht, rfl⟩ := List.mem_map.1 hrecord
    obtain ⟨call', hfinds', -, hname⟩ := tells_of_mem hrecord
    have hd := hdecrypted t.record hrecord (hsame (hindex ▸ hfinds') ▸ hname)
    rw [isDecrypted_eq] at hd
    obtain ⟨f, hf⟩ := Option.isSome_iff_exists.1 hd
    exact List.mem_map.2 ⟨f, List.mem_filterMap.2 ⟨t, ht, hf⟩, (fold?_eq_some.1 hf).1.trans hindex⟩

/-- After a run, a decryptor that is removable is still called exactly if it was called at an instruction
that the run passed over: one that no path reaches, or in a body whose stack is not known. -/
theorem removable_iff (ho : p.obfuscator.Faithful) (h : p.run s cs = .ok r)
    (hname : call.owner ++ "." ++ call.name ∈ r.summary.removable) :
    (∃ c ∈ r.classes, ∃ m ∈ c.methods, ∃ n, CallsAt m n call) ↔
      ∃ c ∈ cs, ∃ m ∈ c.methods, ∃ n, CallsAt m n call ∧ ¬ p.Finds (.ofList cs) c m n call := by
  have hleaves := run_spec h
  have hdecrypted : ∀ c ∈ cs, ∀ m ∈ c.methods, ∀ record ∈ p.records (.ofList cs) c m,
      record.decryptor = call.owner ++ "." ++ call.name → record.outcome.isDecrypted = true := by
    intro c hc m hm record hrecord
    refine (Summary.mem_removable.1 hname).2 record ?_
    rw [hleaves.summary, Summary.recordAll, hleaves.records]
    exact List.mem_append_right _ (List.mem_flatMap.2 ⟨c, hc, List.mem_flatMap.2 ⟨m, hm, hrecord⟩⟩)
  have hleft : (∃ c ∈ r.classes, ∃ m ∈ c.methods, ∃ n, CallsAt m n call) ↔
      ∃ c ∈ cs, ∃ m ∈ c.methods, ∃ n, CallsAt m n call ∧
        n ∉ calls ((p.attempts (.ofList cs) c m).filterMap Attempt.fold?) := by
    symm
    refine exists_iff_of_forall₂ (hleaves.classes.imp fun c c' hc => ?_)
    exact exists_iff_of_forall₂ ((hc.preserves ho).methods.imp fun m m' hm => callsAt_rewritten hm.2)
  rw [hleft]
  constructor
  · rintro ⟨c, hc, m, hm, n, hcall, hn⟩
    have hiff := mem_calls_iff (hleaves.scans c hc m hm) (hdecrypted c hc m hm) hcall
    exact ⟨c, hc, m, hm, n, hcall, fun hfinds => hn (hiff.2 hfinds)⟩
  · rintro ⟨c, hc, m, hm, n, hcall, hn⟩
    have hiff := mem_calls_iff (hleaves.scans c hc m hm) (hdecrypted c hc m hm) hcall
    exact ⟨c, hc, m, hm, n, hcall, fun hfinds => hn (hiff.1 hfinds)⟩

/-- What `mirror` decrypts is all that is called of it. -/
theorem removable_iff_mirrored : ∃ r, standardPass.run .empty [mirror, mirrored] = .ok r ∧
    "Mirror.get" ∈ r.summary.removable ∧
    ((∃ c ∈ r.classes, ∃ m ∈ c.methods, ∃ n,
        CallsAt m n ⟨"Mirror", "get", "(Ljava/lang/String;)Ljava/lang/String;"⟩) ↔
      ∃ c ∈ [mirror, mirrored], ∃ m ∈ c.methods, ∃ n,
        CallsAt m n ⟨"Mirror", "get", "(Ljava/lang/String;)Ljava/lang/String;"⟩ ∧
        ¬ standardPass.Finds (.ofList [mirror, mirrored]) c m n
          ⟨"Mirror", "get", "(Ljava/lang/String;)Ljava/lang/String;"⟩) := by
  obtain ⟨r, hr, hrecords⟩ : ∃ r, standardPass.run .empty [mirror, mirrored] = .ok r ∧
      r.summary.records = [⟨"Mirror.get", ⟨"Mirrored", "main", "()Ljava/lang/String;", 1⟩, .decrypted "a"⟩] :=
    ⟨_, rfl, by decide +kernel⟩
  have hname : "Mirror.get" ∈ r.summary.removable := by
    rw [Summary.mem_removable, hrecords]
    decide
  exact ⟨r, hr, hname, removable_iff Obfuscator.faithful_allatori hr hname⟩

/-- A class that calls the same decryptor on a path and behind a return. -/
def leftover : ClassFile :=
  ⟨"Leftover", none, [], 0, 0, [],
    [mirroredMain, ⟨"rest", "(Ljava/lang/String;)V", 8, some ⟨#[⟨.voidReturn, .none⟩, ⟨.load .ref, .slot 0⟩,
      ⟨.invoke .static, .method ⟨"Mirror", "get", "(Ljava/lang/String;)Ljava/lang/String;"⟩⟩, ⟨.pop, .none⟩,
      ⟨.voidReturn, .none⟩], 1⟩⟩]⟩

/-- The decryptor is removable, and is still called. -/
theorem removable_called : ∃ r, standardPass.run .empty [mirror, leftover] = .ok r ∧
    "Mirror.get" ∈ r.summary.removable ∧ ∃ c ∈ r.classes, ∃ m ∈ c.methods, ∃ n,
      CallsAt m n ⟨"Mirror", "get", Config.standard.descriptor⟩ := by
  obtain ⟨r, hr, hrecords, hcode⟩ : ∃ r,
      standardPass.run .empty [mirror, leftover] = .ok r ∧
      r.summary.records = [⟨"Mirror.get", ⟨"Leftover", "main", "()Ljava/lang/String;", 1⟩, .decrypted "a"⟩] ∧
      (r.classes.flatMap ClassFile.methods)[2]? = leftover.methods[1]? :=
    ⟨_, rfl, by decide +kernel⟩
  have hname : "Mirror.get" ∈ r.summary.removable := by
    rw [Summary.mem_removable, hrecords]
    decide
  obtain ⟨c, hc, hm⟩ := List.mem_flatMap.1 (List.mem_of_getElem? hcode)
  exact ⟨r, hr, hname, c, hc, _, hm, 2, _, .static, rfl, rfl⟩

end Jvm.Decryption
