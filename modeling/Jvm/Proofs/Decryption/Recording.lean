import Jvm.Proofs.Decryption.Removable

/-!
# The order of recording

Workers that treat classes at the same time record what becomes of calls in an order that no one knows
beforehand. `Summary.Agrees` says that two summaries tell the same. They do if they have the same records
and, of failures that a report does not tell apart, each has them in the same order (`agrees_of_perm`):
a stable sort then leaves the same list (`mergeSort_eq_of_key`).

What is recorded of a class is recorded by one worker in the order of the code, and failures that a report
does not tell apart are of one class. So it does not matter how the records of workers on different classes
are mixed (`Interleaved.agrees`), nor in which order the decryptors are looked at when the records are kept
by decryptor (`failures_listed`).
-/

namespace Jvm.Decryption

/-! ### Lists -/

section Lists

variable {α : Type} {le : α → α → Bool} {xs ys : List α}

/-- A stable sort keeps the order of entries that may stand in any order. -/
theorem filter_mergeSort (htrans : ∀ a b c, le a b = true → le b c = true → le a c = true)
    (htotal : ∀ a b, (le a b || le b a) = true) {p : α → Bool}
    (hp : ∀ a b, p a = true → p b = true → le a b = true) : (xs.mergeSort le).filter p = xs.filter p := by
  have hsorted : (xs.filter p).Pairwise fun a b => le a b = true :=
    List.pairwise_of_forall_mem_list fun a ha b hb => hp a b (List.mem_filter.1 ha).2 (List.mem_filter.1 hb).2
  have hsub := (List.sublist_mergeSort htrans htotal hsorted List.filter_sublist).filter p
  simp only [List.filter_filter, Bool.and_self] at hsub
  exact (hsub.eq_of_length ((List.mergeSort_perm xs le).filter p).length_eq.symm).symm

theorem mem_iff_of_ranks (hrefl : ∀ a, le a a = true)
    (h : ∀ k, (xs.filter fun x => le k x && le x k) = ys.filter fun x => le k x && le x k) (x : α) :
    x ∈ xs ↔ x ∈ ys := by
  have hx := congrArg (x ∈ ·) (h x)
  simpa [hrefl] using hx

/-- Two sorted lists are equal if entries of one rank stand in the same order in both. -/
theorem eq_of_sorted (hrefl : ∀ a, le a a = true) (hx : xs.Pairwise fun a b => le a b = true)
    (hy : ys.Pairwise fun a b => le a b = true)
    (h : ∀ k, (xs.filter fun x => le k x && le x k) = ys.filter fun x => le k x && le x k) : xs = ys := by
  induction xs generalizing ys with
  | nil => exact (List.eq_nil_iff_forall_not_mem.2 fun y hy =>
      List.not_mem_nil ((mem_iff_of_ranks hrefl h y).2 hy)).symm
  | cons x xs ih =>
    cases ys with
    | nil => exact absurd ((mem_iff_of_ranks hrefl h x).1 List.mem_cons_self) List.not_mem_nil
    | cons y ys =>
      have hle : ∀ {a as}, (a :: as).Pairwise (fun a b => le a b = true) → ∀ b ∈ a :: as, le a b = true := by
        intro a as ha b hb
        rcases List.mem_cons.1 hb with rfl | hb
        · exact hrefl b
        · exact List.rel_of_pairwise_cons ha hb
      -- both heads are least, so they have one rank and are the first entries of it
      have hxy : le x y = true := hle hx y ((mem_iff_of_ranks hrefl h y).2 List.mem_cons_self)
      have hyx : le y x = true := hle hy x ((mem_iff_of_ranks hrefl h x).1 List.mem_cons_self)
      obtain rfl : x = y := by
        have hhead := h x
        rw [List.filter_cons_of_pos (by simp [hrefl]), List.filter_cons_of_pos (by simp [hxy, hyx])] at hhead
        exact (List.cons.inj hhead).1
      refine congrArg (x :: ·) (ih hx.tail hy.tail fun k => ?_)
      have hk := h k
      rw [List.filter_cons, List.filter_cons] at hk
      split at hk
      · exact (List.cons.inj hk).2
      · exact hk

theorem nodup_eraseDups [DecidableEq α] (xs : List α) : xs.eraseDups.Nodup := by
  induction hn : xs.length using Nat.strong_induction_on generalizing xs with
  | _ n ih =>
    cases xs with
    | nil => simp
    | cons x xs =>
      rw [List.eraseDups_cons, List.nodup_cons]
      refine ⟨by simp, ih _ ?_ _ rfl⟩
      have hle := List.length_filter_le (fun y => !y == x) xs
      rw [← hn, List.length_cons]
      omega

theorem flatMap_of_nodup {β : Type} {x : α} (hxs : xs.Nodup) (hx : x ∈ xs) {f : α → List β}
    (hf : ∀ y, y ≠ x → f y = []) : xs.flatMap f = f x := by
  obtain ⟨before, after, rfl⟩ := List.append_of_mem hx
  rw [List.nodup_append, List.nodup_cons] at hxs
  have hempty : ∀ part : List α, x ∉ part → part.flatMap f = [] := fun part hpart =>
    List.flatMap_eq_nil_iff.2 fun y hy => hf y fun h => hpart (h ▸ hy)
  rw [List.flatMap_append, List.flatMap_cons, hempty after hxs.2.1.1,
    hempty before fun h => hxs.2.2 x h x List.mem_cons_self rfl, List.nil_append, List.append_nil]

end Lists

/-! ### The order of reports -/

namespace Record

instance : Std.TransCmp reportOrder :=
  inferInstanceAs (Std.TransCmp (compareLex (compareLex (compareLex (compareOn decryptor)
    (compareOn fun r => r.site.className)) (compareOn fun r => r.site.methodName))
    (compareOn fun r => r.site.index)))

/-- What a report orders failures by. -/
def key (r : Record) : String × String × String × Nat :=
  (r.decryptor, r.site.className, r.site.methodName, r.site.index)

/-- The record is of a failure with a key. -/
def isFailureOf (k : String × String × String × Nat) (r : Record) : Bool :=
  r.outcome.isFailed && decide (r.key = k)

theorem reportOrder_eq_iff {a b : Record} : a.reportOrder b = .eq ↔ a.key = b.key := by
  simp only [reportOrder, key, Ordering.then_eq_eq, Std.LawfulEqCmp.compare_eq_iff_eq, Prod.mk.injEq, and_assoc]

/-- Two records may stand in any order exactly if they have the same key. -/
theorem rank_eq (a b : Record) :
    ((a.reportOrder b).isLE && (b.reportOrder a).isLE) = decide (b.key = a.key) := by
  rw [Bool.eq_iff_iff, Bool.and_eq_true, decide_eq_true_iff, ← reportOrder_eq_iff]
  constructor
  · rintro ⟨hab, hba⟩
    exact Std.OrientedCmp.isLE_antisymm hba hab
  · intro h
    rw [h, Std.OrientedCmp.eq_symm h]
    exact ⟨rfl, rfl⟩

/-- Sorted for a report, two lists are equal if records of one key stand in the same order in both. -/
theorem mergeSort_eq_of_key {xs ys : List Record}
    (h : ∀ k, (xs.filter fun r => r.key = k) = ys.filter fun r => r.key = k) :
    (xs.mergeSort fun a b => (a.reportOrder b).isLE) = ys.mergeSort fun a b => (a.reportOrder b).isLE := by
  have htrans : ∀ a b c : Record, (a.reportOrder b).isLE = true → (b.reportOrder c).isLE = true →
      (a.reportOrder c).isLE = true := fun _ _ _ => Std.TransCmp.isLE_trans
  have htotal : ∀ a b : Record, ((a.reportOrder b).isLE || (b.reportOrder a).isLE) = true := by
    intro a b
    rw [show b.reportOrder a = (a.reportOrder b).swap from Std.OrientedCmp.eq_swap]
    cases a.reportOrder b <;> rfl
  have hkey : ∀ (zs : List Record) k, ((zs.mergeSort fun a b => (a.reportOrder b).isLE).filter
      fun r => (k.reportOrder r).isLE && (r.reportOrder k).isLE) = zs.filter fun r => r.key = k.key := by
    intro zs k
    simp only [rank_eq]
    refine filter_mergeSort htrans htotal fun a b ha hb => ?_
    rw [reportOrder_eq_iff.2 ((of_decide_eq_true ha).trans (of_decide_eq_true hb).symm)]
    rfl
  refine eq_of_sorted (fun a => by simpa using htotal a a) (List.pairwise_mergeSort htrans htotal xs)
    (List.pairwise_mergeSort htrans htotal ys) fun k => ?_
  rw [hkey, hkey, h]

end Record

/-! ### Summaries that tell the same -/

namespace Summary

/-- All that can be read off two summaries is the same, up to the order of plain texts. -/
structure Agrees (s t : Summary) : Prop where
  decryptedCount : s.decryptedCount = t.decryptedCount
  failedCount : s.failedCount = t.failedCount
  skippedCount : s.skippedCount = t.skippedCount
  decryptors : s.decryptors = t.decryptors
  removable : s.removable = t.removable
  failures : s.failures = t.failures
  text : s.text = t.text
  decryptedFor : ∀ d, (s.decryptedFor d).Perm (t.decryptedFor d)

variable {s t : Summary}

theorem decryptors_of_perm (h : s.records.Perm t.records) : s.decryptors = t.decryptors := by
  have hperm : (s.records.map (·.decryptor)).eraseDups.Perm (t.records.map (·.decryptor)).eraseDups := by
    rw [List.perm_ext_iff_of_nodup (nodup_eraseDups _) (nodup_eraseDups _)]
    intro d
    rw [List.mem_eraseDups, List.mem_eraseDups, (h.map _).mem_iff]
  have hsorted : ∀ names : List String, (names.mergeSort fun a b => decide (a ≤ b)).Pairwise (· ≤ ·) := by
    intro names
    have htrans : ∀ a b c : String, decide (a ≤ b) → decide (b ≤ c) → decide (a ≤ c) := fun a b c hab hbc =>
      decide_eq_true (le_trans (of_decide_eq_true hab) (of_decide_eq_true hbc))
    have htotal : ∀ a b : String, (decide (a ≤ b) || decide (b ≤ a)) = true := fun a b => by simpa using le_total a b
    simpa using List.pairwise_mergeSort htrans htotal names
  exact ((List.mergeSort_perm _ _).trans (hperm.trans (List.mergeSort_perm _ _).symm)).eq_of_pairwise
    (fun _ _ _ _ hab hba => le_antisymm hab hba) (hsorted _) (hsorted _)

theorem agrees_of_perm (h : s.records.Perm t.records) (hfailures : ∀ k, s.records.filter (Record.isFailureOf k) =
    t.records.filter (Record.isFailureOf k)) : s.Agrees t := by
  have hcount : ∀ kind, (s.select kind).length = (t.select kind).length := fun kind => (h.filter _).length_eq
  have hhas : ∀ d kind, s.has d kind = t.has d kind := fun d kind => h.any_eq
  have hdecryptors := decryptors_of_perm h
  have hselect : ∀ (u : Summary) k, (u.select Outcome.isFailed).filter (fun r => r.key = k) =
      u.records.filter (Record.isFailureOf k) := fun u k => by
    rw [select, List.filter_filter]
    exact List.filter_congr fun r _ => Bool.and_comm _ _
  refine ⟨hcount _, hcount _, hcount _, hdecryptors, ?_, Record.mergeSort_eq_of_key fun k => ?_, ?_,
    fun d => h.filterMap _⟩
  · simp only [removable, hdecryptors, hhas]
  · rw [hselect, hselect, hfailures]
  · simp only [text, hdecryptors, decryptedCount, failedCount, skippedCount, hcount]

/-! ### Records that are kept by decryptor -/

/-- The records of a kind, decryptor by decryptor. -/
def listed (s : Summary) (kind : Outcome → Bool) (names : List String) : List Record :=
  names.flatMap fun d => (s.select kind).filter fun r => r.decryptor = d

variable {kind : Outcome → Bool} {names : List String}

theorem mem_listed {r : Record} : r ∈ s.listed kind names ↔ r ∈ s.select kind ∧ r.decryptor ∈ names := by
  simp [listed, and_comm]

/-- Records of one decryptor are listed in the order in which they were recorded. -/
theorem filter_listed (hnames : names.Nodup) (hall : ∀ r ∈ s.select kind, r.decryptor ∈ names) {p : Record → Bool}
    {d : String} (hp : ∀ r, p r = true → r.decryptor = d) :
    (s.listed kind names).filter p = (s.select kind).filter p := by
  by_cases hd : d ∈ names
  swap
  · have hnone : ∀ r, r.decryptor ∈ names → ¬ p r = true := fun r hr hpr => hd (hp r hpr ▸ hr)
    rw [List.filter_eq_nil_iff.2 fun r hr => hnone r (mem_listed.1 hr).2,
      List.filter_eq_nil_iff.2 fun r hr => hnone r (hall r hr)]
  have hgroup : ∀ e, ((s.select kind).filter fun r => r.decryptor = e).filter p =
      if e = d then (s.select kind).filter p else [] := by
    intro e
    rw [List.filter_filter]
    split
    · rename_i he
      exact List.filter_congr fun r _ => by cases hpr : p r <;> simp [he, hp r, hpr]
    · rename_i he
      exact List.filter_eq_nil_iff.2 fun r _ => by
        rw [Bool.and_eq_true, decide_eq_true_iff]
        exact fun h => he (h.2.symm.trans (hp r h.1))
  rw [listed, List.filter_flatMap, flatMap_of_nodup hnames hd fun e he => (hgroup e).trans (if_neg he), hgroup,
    if_pos rfl]

theorem perm_listed (hnames : names.Nodup) (hall : ∀ r ∈ s.select kind, r.decryptor ∈ names) :
    (s.listed kind names).Perm (s.select kind) := by
  refine List.perm_iff_count.2 fun r => ?_
  rw [List.count_eq_countP, List.count_eq_countP, List.countP_eq_length_filter, List.countP_eq_length_filter,
    filter_listed hnames hall fun x hx => congrArg Record.decryptor (eq_of_beq hx)]

/-- In whatever order the decryptors are looked at, the sorted failures are the same. -/
theorem failures_listed (hnames : names.Nodup) (hall : ∀ r ∈ s.select Outcome.isFailed, r.decryptor ∈ names) :
    ((s.listed Outcome.isFailed names).mergeSort fun a b => (a.reportOrder b).isLE) = s.failures :=
  Record.mergeSort_eq_of_key fun k => filter_listed (d := k.1) hnames hall fun _ hr =>
    congrArg Prod.fst (of_decide_eq_true hr)

end Summary

/-! ### Workers -/

/-- What comes of workers, each with a list of things to do in order, that take turns in any way. -/
inductive Interleaved {α : Type} : List (List α) → List α → Prop where
  | done {ws : List (List α)} : (∀ w ∈ ws, w = []) → Interleaved ws []
  | turn (before : List (List α)) {after : List (List α)} {w xs : List α} {x : α} :
      Interleaved (before ++ w :: after) xs → Interleaved (before ++ (x :: w) :: after) (x :: xs)

namespace Interleaved

variable {α : Type} {ws : List (List α)} {xs : List α}

theorem perm (h : Interleaved ws xs) : xs.Perm ws.flatten := by
  induction h with
  | done hnil => rw [List.flatten_eq_nil_iff.2 hnil]
  | turn _ _ ih =>
    rw [List.flatten_append, List.flatten_cons] at ih ⊢
    exact (ih.cons _).trans List.perm_middle.symm

/-- What one worker does only stays in its order. -/
theorem filter_eq (h : Interleaved ws xs) {p : α → Bool}
    (hp : ws.Pairwise fun v w => ∀ a ∈ v, ∀ b ∈ w, ¬ (p a = true ∧ p b = true)) :
    xs.filter p = ws.flatten.filter p := by
  induction h with
  | done hnil => rw [List.flatten_eq_nil_iff.2 hnil]
  | @turn before after w xs x _ ih =>
    rw [List.pairwise_append, List.pairwise_cons] at hp
    obtain ⟨hbefore, ⟨hw, hafter⟩, hcross⟩ := hp
    rw [List.filter_cons, ih ?_]
    · simp only [List.flatten_append, List.flatten_cons, List.filter_append, List.cons_append, List.filter_cons]
      split
      · rename_i hx
        have hnone : before.flatten.filter p = [] := by
          refine List.filter_eq_nil_iff.2 fun a ha hpa => ?_
          obtain ⟨v, hv, ha⟩ := List.mem_flatten.1 ha
          exact hcross v hv _ List.mem_cons_self a ha x List.mem_cons_self ⟨hpa, hx⟩
        rw [hnone, List.nil_append, List.nil_append]
      · rfl
    · rw [List.pairwise_append, List.pairwise_cons]
      refine ⟨hbefore, ⟨fun v hv a ha => hw v hv a (List.mem_cons_of_mem x ha), hafter⟩, fun v hv u hu a ha b hb => ?_⟩
      rcases List.mem_cons.1 hu with rfl | hu
      · exact hcross v hv _ List.mem_cons_self a ha b (List.mem_cons_of_mem x hb)
      · exact hcross v hv u (List.mem_cons_of_mem _ hu) a ha b hb

theorem idle (h : Interleaved ws xs) : Interleaved ([] :: ws) xs := by
  induction h with
  | done hnil => exact .done (List.forall_mem_cons.2 ⟨rfl, hnil⟩)
  | @turn before after w xs x _ ih => exact .turn ([] :: before) ih

/-- The workers may take turns one after the other. -/
theorem flatten (ws : List (List α)) : Interleaved ws ws.flatten := by
  induction ws with
  | nil => exact .done nofun
  | cons w ws ih =>
    rw [List.flatten_cons]
    induction w with
    | nil => exact ih.idle
    | cons x w ihw => exact .turn [] ihw

end Interleaved

/-- No two of the workers record calls in classes of one name. -/
def Apart (ws : List (List Record)) : Prop :=
  ws.Pairwise fun v w => ∀ a ∈ v, ∀ b ∈ w, a.site.className ≠ b.site.className

variable {ws : List (List Record)} {rs rs' : List Record} {s : Summary}

/-- However workers on different classes take turns, what they add to a summary tells the same. -/
theorem Interleaved.agrees (h : Interleaved ws rs) (h' : Interleaved ws rs') (hws : Apart ws) :
    (s.recordAll rs).Agrees (s.recordAll rs') := by
  refine Summary.agrees_of_perm ((h.perm.trans h'.perm.symm).append_left s.records) fun k => ?_
  have hone : ws.Pairwise fun v w => ∀ a ∈ v, ∀ b ∈ w,
      ¬ (a.isFailureOf k = true ∧ b.isFailureOf k = true) := by
    refine hws.imp fun {v w} hvw a ha b hb hab => hvw a ha b hb ?_
    simp only [Record.isFailureOf, Bool.and_eq_true, decide_eq_true_iff] at hab
    exact congrArg (fun k => k.2.1) (hab.1.2.trans hab.2.2.symm)
  simp only [Summary.recordAll, List.filter_append, h.filter_eq hone, h'.filter_eq hone]

/-- Classes of different names may be treated in any order: the summary of a run tells the same. -/
theorem Pass.Leaves.agrees {p : Pass} {cs : List ClassFile} {r : Pass.Run} (h : p.Leaves s cs r)
    (hnames : (cs.map ClassFile.name).Nodup)
    (hrs : Interleaved (cs.map fun c => c.methods.flatMap (p.records (.ofList cs) c)) rs) :
    (s.recordAll rs).Agrees r.summary := by
  have hapart : Apart (cs.map fun c => c.methods.flatMap (p.records (.ofList cs) c)) := by
    rw [Apart, List.pairwise_map]
    refine (List.pairwise_map.1 hnames).imp fun {c c'} hne a ha b hb heq => hne ?_
    obtain ⟨m, -, ha⟩ := List.mem_flatMap.1 ha
    obtain ⟨m', -, hb⟩ := List.mem_flatMap.1 hb
    obtain ⟨-, -, hsite, -⟩ := tells_of_mem ha
    obtain ⟨-, -, hsite', -⟩ := tells_of_mem hb
    rwa [hsite, hsite'] at heq
  rw [h.summary, h.records, List.flatMap_def]
  exact hrs.agrees (.flatten _) hapart

/-! ### Any order -/

theorem Summary.foldl_record (rs : List Record) (s : Summary) : rs.foldl Summary.record s = s.recordAll rs := by
  induction rs generalizing s with
  | nil => rw [List.foldl_nil, recordAll, List.append_nil]
  | cons r rs ih => rw [List.foldl_cons, ih, recordAll, recordAll, record, List.append_assoc, List.singleton_append]

/-- Two orders of the same records, with failures of one decryptor, class, method name and index in the same
order, make summaries that tell the same; so do two ways in which workers on classes of different names take
turns. And where records are kept by decryptor, it does not matter in which order the decryptors are looked
at. -/
theorem recorded_in_any_order :
    (∀ rs rs' : List Record, rs.Perm rs' →
      (∀ k, rs.filter (Record.isFailureOf k) = rs'.filter (Record.isFailureOf k)) →
      (rs.foldl Summary.record .empty).Agrees (rs'.foldl Summary.record .empty)) ∧
    (∀ ws rs rs', Apart ws → Interleaved ws rs → Interleaved ws rs' →
      (rs.foldl Summary.record .empty).Agrees (rs'.foldl Summary.record .empty)) ∧
    ∀ (s : Summary) (names : List String), names.Nodup → (∀ r ∈ s.records, r.decryptor ∈ names) →
      (∀ kind, (s.listed kind names).length = (s.select kind).length) ∧
      ((s.listed Outcome.isFailed names).mergeSort fun a b => (a.reportOrder b).isLE) = s.failures := by
  refine ⟨fun rs rs' hperm hfailures => ?_, fun ws rs rs' hws h h' => ?_, fun s names hnames hall => ?_⟩
  · rw [Summary.foldl_record, Summary.foldl_record]
    exact Summary.agrees_of_perm hperm hfailures
  · rw [Summary.foldl_record, Summary.foldl_record]
    exact h.agrees h' hws
  · have hselect : ∀ kind, ∀ r ∈ s.select kind, r.decryptor ∈ names := fun kind r hr =>
      hall r (List.mem_of_mem_filter hr)
    exact ⟨fun kind => (Summary.perm_listed hnames (hselect kind)).length_eq,
      Summary.failures_listed hnames (hselect _)⟩

/-- A failure of a call in one of two methods of the same name. -/
def overloaded (descriptor : String) : Record :=
  ⟨"Key.get", ⟨"Over", "run", descriptor, 1⟩, .failed .sharedLiteral⟩

/-- A call in a class of another name. -/
def elsewhere : Record := ⟨"Key.get", ⟨"Other", "run", "()V", 1⟩, .decrypted "a"⟩

/-- Two methods of one name fail at the same index, and a call in another class comes before or between. -/
theorem recorded_in_any_order_overloaded :
    ([elsewhere, overloaded "()V", overloaded "(I)V"].foldl Summary.record .empty).Agrees
      ([overloaded "()V", elsewhere, overloaded "(I)V"].foldl Summary.record .empty) ∧
    ([elsewhere, overloaded "()V", overloaded "(I)V"].foldl Summary.record .empty).Agrees
      ([overloaded "()V", overloaded "(I)V", elsewhere].foldl Summary.record .empty) ∧
    ((⟨[overloaded "()V"]⟩ : Summary).listed Outcome.isFailed ["Key.get"]).length = 1 := by
  obtain ⟨horder, hworkers, hlisted⟩ := recorded_in_any_order
  refine ⟨horder _ _ (.swap _ _ _) fun k => ?_, ?_,
    (hlisted ⟨[overloaded "()V"]⟩ ["Key.get"] (by decide) (by decide)).1 _⟩
  · rfl
  · exact hworkers [[elsewhere], [overloaded "()V", overloaded "(I)V"]] _ _ (by unfold Apart; decide)
      (.flatten _) (.turn [[elsewhere]] (.turn [[elsewhere]] (.turn [] (.done (by decide)))))

end Jvm.Decryption
