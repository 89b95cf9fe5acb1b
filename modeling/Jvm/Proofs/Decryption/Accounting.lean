import Jvm.Proofs.Decryption.Ending

/-!
# Every call is accounted for

A record names its call by texts, which two methods may share, so calls are told apart by their place: the
class and the method in the order of the program, and the instruction. `placed` lists what is found with
its place, each place once, and a run that returns has one record for each place of `Pass.places`, which are
those of the calls that `Pass.Finds` describes.

The counts agree as a method gets shorter by its folds, and has one fold for each record of a call that
was decrypted.

That a run returns is not to be taken for granted. `runs_account` says what several runs account for and when they
all return, and `run_endless` is a run that does not.
-/

namespace Jvm.Decryption

/-! ### Places -/

section Placed

variable {α β γ : Type} {f : α → List β} {xs : List α}

/-- What is found in the entries of a list, with the places of the entries. -/
def placed (f : α → List β) (xs : List α) : List (Nat × β) :=
  xs.zipIdx.flatMap fun (x, k) => (f x).map (k, ·)

theorem mem_placed {q : Nat × β} : q ∈ placed f xs ↔ ∃ x, xs[q.1]? = some x ∧ q.2 ∈ f x := by
  obtain ⟨k, y⟩ := q
  simp only [placed, List.mem_flatMap, List.mem_map, Prod.exists, Prod.mk.injEq, List.mem_zipIdx_iff_getElem?]
  constructor
  · rintro ⟨x, k', hx, y', hy, rfl, rfl⟩
    exact ⟨x, hx, hy⟩
  · rintro ⟨x, hx, hy⟩
    exact ⟨x, k, hx, y, hy, rfl, rfl⟩

theorem nodup_placed (h : ∀ x ∈ xs, (f x).Nodup) : (placed f xs).Nodup := by
  rw [placed, List.nodup_flatMap]
  constructor
  · rintro ⟨x, k⟩ hx
    have hmem : x ∈ xs := List.mem_of_getElem? (List.mem_zipIdx_iff_getElem?.1 hx)
    exact (h x hmem).map fun _ _ heq => (Prod.mk.inj heq).2
  · refine (pairwise_zipIdx xs).imp fun {x y} hlt q hx hy => ?_
    obtain ⟨_, -, rfl⟩ := List.mem_map.1 hx
    obtain ⟨_, -, heq⟩ := List.mem_map.1 hy
    exact absurd (Prod.mk.inj heq).1 (by omega)

/-- What holds between the findings in an entry and other things it has holds of all of them in order. -/
theorem forall₂_placed {R : Nat × β → γ → Prop} {g : α → List γ}
    (h : ∀ k x, xs[k]? = some x → List.Forall₂ (fun y => R (k, y)) (f x) (g x)) :
    List.Forall₂ R (placed f xs) (xs.flatMap g) := by
  have hfrom : ∀ (ys : List α) start, (∀ k x, ys[k]? = some x →
      List.Forall₂ (fun y => R (start + k, y)) (f x) (g x)) →
      List.Forall₂ R ((ys.zipIdx start).flatMap fun (x, k) => (f x).map (k, ·)) (ys.flatMap g) := by
    intro ys
    induction ys with
    | nil => intro _ _; exact .nil
    | cons y ys ih =>
      intro start hall
      rw [List.zipIdx_cons, List.flatMap_cons, List.flatMap_cons]
      refine List.rel_append (List.forall₂_map_left_iff.2 (hall 0 y rfl)) (ih (start + 1) fun k x hx => ?_)
      exact (show start + (k + 1) = start + 1 + k by omega) ▸ hall (k + 1) x hx
  exact hfrom xs 0 fun k x hx => (Nat.zero_add k).symm ▸ h k x hx

end Placed

/-! ### The calls of a method -/

variable {p : Pass} {d : ClassDictionary} {c c' : ClassFile} {m m' : Method} {n : Nat}

/-- Instruction `n` of a method is a reachable call of a decryptor, and the stack there is known. -/
def Pass.Finds (p : Pass) (d : ClassDictionary) (c : ClassFile) (m : Method) (n : Nat) (call : MemberRef) :
    Prop :=
  ∃ b a kind, m.body = some b ∧ Flow.analyze c.name b = .ok a ∧ a.isReachable n ∧
    b.instructions[n]? = some ⟨.invoke kind, .method call⟩ ∧ call.descriptor = p.config.descriptor ∧
    (p.obfuscator.decryptor? d call).isSome

/-- The record is that of the call at instruction `n` of a method. -/
def Pass.Tells (p : Pass) (d : ClassDictionary) (c : ClassFile) (m : Method) (n : Nat) (r : Record) : Prop :=
  ∃ call, p.Finds d c m n call ∧ r.site = ⟨c.name, m.name, m.descriptor, n⟩ ∧
    r.decryptor = call.owner ++ "." ++ call.name

/-- Where calls of a method are recorded. -/
def Pass.found (p : Pass) (d : ClassDictionary) (c : ClassFile) (m : Method) : List Nat :=
  (p.records d c m).map (·.site.index)

theorem found_eq : p.found d c m = (p.attempts d c m).map (·.site.index) := by
  rw [Pass.found, Pass.records, List.map_map]
  rfl

theorem nodup_found : (p.found d c m).Nodup := found_eq ▸ ordered_attempts.imp Nat.ne_of_lt

theorem tells_of_mem {r : Record} (hr : r ∈ p.records d c m) : p.Tells d c m r.site.index r := by
  obtain ⟨t, ht, rfl⟩ := List.mem_map.1 hr
  obtain ⟨b, a, i, n, hb, ha, hi, hattempt⟩ := exists_attempt ht
  obtain ⟨call, decryptor, arguments, hcallee, harguments, hname, hsite, -⟩ := finding_of_attempt? hattempt
  obtain ⟨⟨kind, rfl⟩, hdescriptor, hdecryptor⟩ := callee?_eq_some.1 hcallee
  rw [Analysis.callArguments?, Option.bind_eq_bind, Option.bind_eq_some_iff] at harguments
  obtain ⟨e, he, -⟩ := harguments
  have hindex : t.record.site.index = n := congrArg CallSite.index hsite
  rw [hindex]
  exact ⟨call, ⟨b, a, kind, hb, ha, Option.isSome_iff_exists.2 ⟨e, he⟩, hi, hdescriptor,
    Option.isSome_iff_exists.2 ⟨decryptor, hdecryptor⟩⟩, hsite, hname⟩

theorem exists_callArguments {b : MethodBody} {a : Analysis} {kind : InvokeKind} {call : MemberRef}
    (ha : Flow.analyze c.name b = .ok a) (hi : b.instructions[n]? = some ⟨.invoke kind, .method call⟩)
    (hn : a.isReachable n) : ∃ arguments, a.callArguments? n = some arguments := by
  obtain ⟨e, he⟩ := Option.isSome_iff_exists.1 hn
  obtain ⟨i, stack, after, hi', htransfer, -⟩ := Flow.entry_spec ha he
  obtain rfl := Option.some.inj (hi.symm.trans hi')
  obtain ⟨f, arguments, hf, harguments⟩ := Flow.exists_arguments htransfer
  exact ⟨arguments, by simp [Analysis.callArguments?, he, hf, harguments]⟩

/-- No call that is found is passed over, if the scan ends: a reachable call has arguments. -/
theorem mem_found {notes : List Note} (hscan : p.scan d c m = .ok notes) :
    n ∈ p.found d c m ↔ ∃ call, p.Finds d c m n call := by
  constructor
  · intro hn
    obtain ⟨r, hr, rfl⟩ := List.mem_map.1 hn
    obtain ⟨call, hfinds, -⟩ := tells_of_mem hr
    exact ⟨call, hfinds⟩
  · rintro ⟨call, b, a, kind, hb, ha, hreach, hi, hdescriptor, hdecryptor⟩
    obtain ⟨decryptor, hdecryptor⟩ := Option.isSome_iff_exists.1 hdecryptor
    obtain ⟨arguments, harguments⟩ := exists_callArguments ha hi hreach
    have hattempt := (attempt?_eq_some (c := c) (m := m)).2 ⟨call, decryptor, arguments,
      callee?_eq_some.2 ⟨⟨kind, rfl⟩, hdescriptor, hdecryptor⟩, harguments, rfl⟩
    obtain ⟨t, ht, hok⟩ := mem_attempts hscan hb ha hi hattempt
    rw [hok] at hattempt
    obtain ⟨_, _, _, -, -, -, hsite, -⟩ := finding_of_attempt? hattempt
    exact found_eq ▸ List.mem_map.2 ⟨t, ht, congrArg CallSite.index hsite⟩

theorem forall₂_found : List.Forall₂ (p.Tells d c m) (p.found d c m) (p.records d c m) :=
  List.forall₂_map_left_iff.2 (List.forall₂_same.2 fun _ => tells_of_mem)

/-! ### The calls of a program -/

variable {s : Summary} {cs : List ClassFile} {r : Pass.Run}

/-- Where calls of a program are recorded: the class, the method and the instruction. -/
def Pass.places (p : Pass) (cs : List ClassFile) : List (Nat × Nat × Nat) :=
  placed (fun c => placed (p.found (.ofList cs) c) c.methods) cs

theorem mem_places (hscans : ∀ c ∈ cs, p.Scans (.ofList cs) c) {q : Nat × Nat × Nat} : q ∈ p.places cs ↔
    ∃ c m call, cs[q.1]? = some c ∧ c.methods[q.2.1]? = some m ∧ p.Finds (.ofList cs) c m q.2.2 call := by
  simp only [Pass.places, mem_placed]
  have hfound : ∀ {c m}, cs[q.1]? = some c → c.methods[q.2.1]? = some m →
      (q.2.2 ∈ p.found (.ofList cs) c m ↔ ∃ call, p.Finds (.ofList cs) c m q.2.2 call) := fun hc hm =>
    mem_found (hscans _ (List.mem_of_getElem? hc) _ (List.mem_of_getElem? hm))
  constructor
  · rintro ⟨c, hc, m, hm, hn⟩
    obtain ⟨call, hcall⟩ := (hfound hc hm).1 hn
    exact ⟨c, m, call, hc, hm, hcall⟩
  · rintro ⟨c, m, call, hc, hm, hcall⟩
    exact ⟨c, hc, m, hm, (hfound hc hm).2 ⟨call, hcall⟩⟩

theorem nodup_places : (p.places cs).Nodup :=
  nodup_placed fun _ _ => nodup_placed fun _ _ => nodup_found

/-- The record is that of the call at a place of a program. -/
def Pass.Located (p : Pass) (cs : List ClassFile) (q : Nat × Nat × Nat) (record : Record) : Prop :=
  ∃ c m, cs[q.1]? = some c ∧ c.methods[q.2.1]? = some m ∧ p.Tells (.ofList cs) c m q.2.2 record

theorem forall₂_places (h : p.Leaves s cs r) : List.Forall₂ (p.Located cs) (p.places cs) r.records := by
  rw [h.records]
  refine forall₂_placed fun k c hc => forall₂_placed fun j m hm => ?_
  exact forall₂_found.imp fun n record htells => ⟨c, m, hc, hm, htells⟩

/-! ### The lengths of bodies -/

/-- How many instructions the bodies of a program have. -/
def instructionCount (cs : List ClassFile) : Nat :=
  (cs.map fun c => (c.methods.map fun m => (m.body.map MethodBody.size).getD 0).sum).sum

theorem sum_of_forall₂ {α β : Type} {f lost : α → Nat} {g : β → Nat} {xs : List α} {ys : List β}
    (h : List.Forall₂ (fun x y => f x = g y + lost x) xs ys) :
    (xs.map f).sum = (ys.map g).sum + (xs.map lost).sum := by
  induction h with
  | nil => rfl
  | cons hxy _ ih =>
    simp only [List.map_cons, List.sum_cons, ih, hxy]
    omega

theorem size_foldMethod (h : Pass.foldMethod (p.noted d c m) m = .ok m') : (m.body.map MethodBody.size).getD 0
    = (m'.body.map MethodBody.size).getD 0 + (p.folds d c m).length := by
  obtain ⟨hb, rfl⟩ | ⟨b, b', hb, happly, rfl⟩ := foldMethod_eq_ok.1 h
  · rw [folds_unreadable (by simp [hb])]
    rfl
  · obtain ⟨b₁, hb₁, hsize⟩ := Fold.exists_applyAll ordered_folds fun f hf => call_lt hb hf
    obtain rfl := Except.ok.inj (happly.symm.trans hb₁)
    simp [hb, hsize]

theorem instructionCount_run (h : p.Leaves s cs r) :
    instructionCount cs = instructionCount r.classes + r.decrypted := by
  have hlost : r.decrypted =
      (cs.map fun c => (c.methods.map fun m => (p.folds (.ofList cs) c m).length).sum).sum := by
    simp only [h.decrypted, h.attempts, List.filterMap_flatMap, List.length_flatMap, Pass.folds]
  rw [hlost]
  refine sum_of_forall₂ (h.classes.imp fun c c' hc => ?_)
  obtain ⟨methods, rfl, hmethods⟩ := hc
  exact sum_of_forall₂ (hmethods.imp fun m m' hm => size_foldMethod hm)

/-! ### Runs of one pass -/

theorem isDecrypted_eq (t : Attempt) : t.record.outcome.isDecrypted = t.fold?.isSome := by
  obtain ⟨decryptor, site, finding⟩ := t
  cases finding <;> rfl

theorem decryptedCount_recordAll {ts : List Attempt} :
    (s.recordAll (ts.map Attempt.record)).decryptedCount = s.decryptedCount + (ts.filterMap Attempt.fold?).length := by
  have hcount : (ts.map Attempt.record).countP (·.outcome.isDecrypted) = ts.countP (·.fold?.isSome) := by
    rw [List.countP_map]
    exact List.countP_congr fun t _ => by simp only [Function.comp_apply, isDecrypted_eq]
  simp only [Summary.decryptedCount, Summary.select, Summary.recordAll, List.filter_append, List.length_append,
    List.length_filterMap_eq_countP, ← List.countP_eq_length_filter, hcount]

/-- A run accounts for the calls of a program. -/
structure Pass.Accounts (p : Pass) (s : Summary) (cs : List ClassFile) (r : Pass.Run) : Prop where
  /-- Records of runs before stay, and those of this one are added. -/
  summary : r.summary = s.recordAll r.records
  /-- Each call that is found has its own record, and there are no others. -/
  records : ∃ places, places.Nodup ∧ (∀ k j n, (k, j, n) ∈ places ↔ ∃ c m call, cs[k]? = some c ∧
      c.methods[j]? = some m ∧ p.Finds (.ofList cs) c m n call) ∧
    List.Forall₂ (p.Located cs) places r.records
  /-- Each record counts as one of the three kinds. -/
  kinds : ∀ record ∈ r.records, record.outcome.isDecrypted.toNat + record.outcome.isFailed.toNat
    + record.outcome.isSkipped.toNat = 1
  decrypted : r.summary.decryptedCount = s.decryptedCount + r.decrypted
  shorter : instructionCount cs = instructionCount r.classes + r.decrypted

theorem Pass.Leaves.accounts (h : p.Leaves s cs r) : p.Accounts s cs r where
  summary := h.summary
  records := ⟨p.places cs, nodup_places, fun _ _ _ => mem_places h.scans, forall₂_places h⟩
  kinds record _ := by cases record.outcome <;> rfl
  decrypted := by rw [h.summary, h.decrypted, Pass.Run.records, decryptedCount_recordAll]
  shorter := instructionCount_run h

/-- Runs a pass some times, each time on what the run before left. The clock goes on in between. -/
def Pass.runs (p : Pass) : List (CallSite → Clock) → Summary → List ClassFile → Except Stop (List Pass.Run)
  | [], _, _ => .ok []
  | clocks :: later, s, cs => do
    let r ← { p with clocks }.run s cs
    return r :: (← p.runs later r.summary r.classes)

/-- Each of the runs accounts for the calls of what the run before left. -/
def Pass.AllAccount (p : Pass) : Summary → List ClassFile → List Pass.Run → Prop
  | _, _, [] => True
  | s, cs, r :: rs => p.Accounts s cs r ∧ p.AllAccount r.summary r.classes rs

/-- The classes after some runs. -/
def classesAfter (cs : List ClassFile) : List Pass.Run → List ClassFile
  | [] => cs
  | r :: rs => classesAfter r.classes rs

variable {clocks : CallSite → Clock} {later : List (CallSite → Clock)} {rs : List Pass.Run}

theorem runs_cons_eq_ok : p.runs (clocks :: later) s cs = .ok rs ↔ ∃ r rest, rs = r :: rest ∧
    { p with clocks }.run s cs = .ok r ∧ p.runs later r.summary r.classes = .ok rest := by
  rw [Pass.runs]
  cases hrun : { p with clocks }.run s cs with
  | error => simp [bind, Except.bind]
  | ok r =>
    change (p.runs later r.summary r.classes >>= fun rest => pure (r :: rest)) = _ ↔ _
    cases hruns : p.runs later r.summary r.classes with
    | error => simp [bind, Except.bind, hruns]
    | ok rest => simp [bind, Except.bind, pure, Except.pure, hruns, eq_comm]

theorem runs_cons_eq_error {stop : Stop} : p.runs (clocks :: later) s cs = .error stop ↔
    { p with clocks }.run s cs = .error stop ∨
      ∃ r, { p with clocks }.run s cs = .ok r ∧ p.runs later r.summary r.classes = .error stop := by
  rw [Pass.runs]
  cases hrun : { p with clocks }.run s cs with
  | error => simp [bind, Except.bind]
  | ok r =>
    change (p.runs later r.summary r.classes >>= fun rest => pure (r :: rest)) = _ ↔ _
    cases hruns : p.runs later r.summary r.classes with
    | error => simp [bind, Except.bind, hruns]
    | ok rest => simp [bind, Except.bind, pure, Except.pure, hruns]

theorem runs_accounts {clocks : List (CallSite → Clock)} (h : p.runs clocks s cs = .ok rs) :
    rs.length = clocks.length ∧ p.AllAccount s cs rs := by
  induction clocks generalizing s cs rs with
  | nil => cases h; exact ⟨rfl, trivial⟩
  | cons now later ih =>
    obtain ⟨r, rest, rfl, hr, hrest⟩ := runs_cons_eq_ok.1 h
    obtain ⟨hlength, haccount⟩ := ih hrest
    obtain ⟨hsummary, hrecords, hkinds, hdecrypted, hshorter⟩ := (run_spec hr).accounts
    exact ⟨congrArg (· + 1) hlength, ⟨hsummary, hrecords, hkinds, hdecrypted, hshorter⟩, haccount⟩

/-- Some runs do not all return exactly if one of them comes to a decryptor that does not end. -/
theorem runs_eq_error (hbudget : p.config.limits.instructions ≠ 0) {clocks : List (CallSite → Clock)} {stop : Stop} :
    p.runs clocks s cs = .error stop ↔ stop = .outOfFuel ∧ ∃ before now later rs,
      clocks = before ++ now :: later ∧ p.runs before s cs = .ok rs ∧
        { p with clocks := now }.HangsOn (classesAfter cs rs) := by
  induction clocks generalizing s cs with
  | nil => simp [Pass.runs]
  | cons clocks later ih =>
    rw [runs_cons_eq_error, run_hangs (p := { p with clocks }) hbudget]
    constructor
    · rintro (⟨rfl, hhangs⟩ | ⟨r, hr, hrest⟩)
      · exact ⟨rfl, [], clocks, later, [], rfl, rfl, hhangs⟩
      · obtain ⟨rfl, before, now, after, rs, rfl, hrs, hhangs⟩ := ih.1 hrest
        exact ⟨rfl, clocks :: before, now, after, r :: rs, rfl, runs_cons_eq_ok.2 ⟨r, rs, rfl, hr, hrs⟩, hhangs⟩
    · rintro ⟨rfl, before, now, after, rs, heq, hrs, hhangs⟩
      cases before with
      | nil =>
        cases heq
        cases hrs
        exact .inl ⟨rfl, hhangs⟩
      | cons first before =>
        cases heq
        obtain ⟨r, rest, rfl, hr, hrest⟩ := runs_cons_eq_ok.1 hrs
        exact .inr ⟨r, hr, ih.2 ⟨rfl, before, now, after, rest, rfl, hrest, hhangs⟩⟩

/-- All runs of a bounded program return, since each leaves a program that is bounded. -/
theorem exists_runs (ho : p.obfuscator.Direct) (hbudget : p.config.limits.instructions ≠ 0)
    (hd : (ClassDictionary.ofList cs).Bounded) (clocks : List (CallSite → Clock)) (s : Summary) :
    ∃ rs, p.runs clocks s cs = .ok rs := by
  induction clocks generalizing s cs with
  | nil => exact ⟨[], rfl⟩
  | cons now later ih =>
    obtain ⟨r, hr⟩ := exists_run (p := { p with clocks := now }) ho hbudget hd s
    obtain ⟨rs, hrs⟩ := ih (bounded_run (p := { p with clocks := now }) ho.faithful hr hd) r.summary
    exact ⟨r :: rs, runs_cons_eq_ok.2 ⟨r, rs, rfl, hr, hrs⟩⟩

/-- Any number of runs of a pass with a budget: if all return, each accounts for all calls. They do not exactly
if, after some of them, the next one comes to a call whose decryptor does not end, and there is no such call if
the program is bounded. -/
theorem runs_account (hbudget : p.config.limits.instructions ≠ 0) (clocks : List (CallSite → Clock)) (s : Summary)
    (cs : List ClassFile) :
    (∀ rs, p.runs clocks s cs = .ok rs → rs.length = clocks.length ∧ p.AllAccount s cs rs) ∧
    (∀ stop, p.runs clocks s cs = .error stop ↔ stop = .outOfFuel ∧ ∃ before now later rs,
      clocks = before ++ now :: later ∧ p.runs before s cs = .ok rs ∧
        { p with clocks := now }.HangsOn (classesAfter cs rs)) ∧
    (p.obfuscator.Direct → (ClassDictionary.ofList cs).Bounded → ∃ rs, p.runs clocks s cs = .ok rs) :=
  ⟨fun _ => runs_accounts, fun _ => runs_eq_error hbudget, fun ho hd => exists_runs ho hbudget hd clocks s⟩

theorem bounded_mirrored : (ClassDictionary.ofList [mirror, mirrored]).Bounded := by
  have hclasses : ∀ c ∈ (ClassDictionary.ofList [mirror, mirrored]).classes,
      c.name ≠ "java/lang/reflect/Method" ∧ ∀ m ∈ c.methods, ∀ b ∈ m.body, ∀ i ∈ b.instructions.toList,
        i.staticField? = none := by decide +kernel
  constructor
  · intro owner c hc m _ hinvoker
    obtain ⟨hmem, rfl⟩ := ClassDictionary.name_of_get? hc
    exact (hclasses c hmem).1 hinvoker.1
  · intro owner c hc m hm b hb i hi f hf
    have hnone := (hclasses c (ClassDictionary.name_of_get? hc).1).2 m hm b hb i (Array.mem_def.1 hi)
    cases hf.symm.trans hnone

/-- Two runs, the second of them a second later. -/
theorem runs_account_mirrored : standardPass.config.limits.instructions ≠ 0 ∧ ∃ rs,
    standardPass.runs [fun _ => .still 0, fun _ => .still 1000] .empty [mirror, mirrored] = .ok rs ∧
    rs.length = 2 ∧ standardPass.AllAccount .empty [mirror, mirrored] rs := by
  obtain ⟨haccounts, -, hreturns⟩ := runs_account (p := standardPass) (by decide)
    [fun _ => .still 0, fun _ => .still 1000] .empty [mirror, mirrored]
  obtain ⟨rs, hrs⟩ := hreturns Obfuscator.direct_allatori bounded_mirrored
  exact ⟨by decide, rs, hrs, haccounts rs hrs⟩

/-! ### A run that does not return -/

/-- A decryptor that loads a static field by way of a circle of classes before it returns its argument. -/
def spin : Method :=
  ⟨"get", "(Ljava/lang/String;)Ljava/lang/String;", 8,
    some ⟨#[⟨.getStatic, .field ⟨"Second", "y", "I"⟩⟩, ⟨.pop, .none⟩, ⟨.load .ref, .slot 0⟩,
      ⟨.valueReturn .ref, .none⟩], 1⟩⟩

def spinning : ClassFile := ⟨"Spinning", none, [], 0, 0, [], [spin]⟩

/-- A method that asks it for a text. -/
def spunMain : Method :=
  ⟨"main", "()Ljava/lang/String;", 8,
    some ⟨#[⟨.ldc, .const (.string [97])⟩,
      ⟨.invoke .static, .method ⟨"Spinning", "get", "(Ljava/lang/String;)Ljava/lang/String;"⟩⟩,
      ⟨.valueReturn .ref, .none⟩], 0⟩⟩

def spun : ClassFile := ⟨"Spun", none, [], 0, 0, [], [spunMain]⟩

/-- Both, with the circle, in which no class has the field. -/
def circling : List ClassFile :=
  [⟨"First", some "Second", [], 0, 0, [], []⟩, ⟨"Second", some "First", [], 0, 0, [], []⟩, spinning, spun]

def spunSite : CallSite := ⟨"Spun", "main", "()Ljava/lang/String;", 1⟩

theorem not_settles_circling : ¬ (ClassDictionary.ofList circling).Settles "y" "Second" := fun h =>
  h.not_circle (.tail (.single ⟨_, rfl, rfl, rfl⟩) ⟨_, rfl, rfl, rfl⟩)

theorem idle_circling (name : String) : (ClassDictionary.ofList circling).Idle name := by
  have hclasses : ∀ c ∈ (ClassDictionary.ofList circling).classes, c.setup? = none := by decide +kernel
  exact fun above _ c hc => hclasses c (ClassDictionary.name_of_get? hc).1

/-- The decryptor does not end, whatever the fuel. -/
theorem decrypt_circling (fuel : Nat) : standardPass.decryptWithin (.ofList circling) spun spunSite fuel
    (spinning, spin) [97] = .error .outOfFuel := by
  refine plainOf?_eq_cut.2 ?_
  exact Chain.executeWithin_unsettled (w := standardPass.world (.ofList circling) spunSite) (m := spin)
    (f := ⟨"Second", "y", "I"⟩) rfl rfl rfl rfl rfl (by decide) (by decide) not_settles_circling
    (idle_circling "Second") fuel

/-- A run of this program with the default limits does not return: it comes to a call whose decryptor does not
end, whatever the fuel. -/
theorem run_endless : Config.standard.limits.instructions ≠ 0 ∧
    standardPass.run .empty circling = .error .outOfFuel ∧
    standardPass.Finds (.ofList circling) spun spunMain 1 ⟨"Spinning", "get", Config.standard.descriptor⟩ ∧
    ∀ fuel, standardPass.decryptWithin (.ofList circling) spun spunSite fuel (spinning, spin) [97] =
      .error .outOfFuel := by
  obtain ⟨a, ha, harguments, hconsumers⟩ : ∃ a, Flow.analyze "Spun" (spunMain.body.get rfl) = .ok a ∧
      a.callArguments? 1 = some [.literal (.string [97]) 0] ∧ a.consumers 0 = 1 := ⟨_, rfl, rfl, rfl⟩
  have hfinds : standardPass.Finds (.ofList circling) spun spunMain 1
      ⟨"Spinning", "get", Config.standard.descriptor⟩ := by
    obtain ⟨e, he, -⟩ := Option.bind_eq_some_iff.1 harguments
    exact ⟨_, a, .static, rfl, ha, Option.isSome_iff_exists.2 ⟨e, he⟩, rfl, rfl, rfl⟩
  have hdecrypts : standardPass.Decrypts (.ofList circling) spun spunMain 1 (spinning, spin) [97] :=
    ⟨_, a, .static, ⟨"Spinning", "get", Config.standard.descriptor⟩, 0, rfl, ha, rfl, rfl, rfl, harguments, hconsumers⟩
  have hmem : spun ∈ circling := by simp [circling]
  exact ⟨by decide, (run_hangs (by decide)).2 ⟨rfl, spun, hmem, spunMain, List.mem_singleton_self _, 1, _, _,
    hdecrypts, decrypt_circling⟩, hfinds, decrypt_circling⟩

end Jvm.Decryption
