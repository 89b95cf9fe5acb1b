import Jvm.Proofs.Decryption.Preservation
import Jvm.Proofs.Machine.Budget

/-!
# When a run returns

A run with a budget does not return exactly if it comes to a decryptor that does not end (`run_hangs`): one that is
cut off with the fuel of the world is cut off with any (`decryptWithin_unending`). In a program that is bounded,
each search for a static field settles and no method is the one for calls by reflection, so every decryptor ends
(`decrypt_ends`), and with them the run (`exists_run`).

What makes a program bounded are the superclasses and fields of its classes, the names of its methods, and the
static fields that these load and store. `ClassFile.Retains` says that a class has no others than another one.
A run replaces texts and takes calls out, so that the classes that it leaves retain what they had, and the
program is still bounded (`bounded_run`).
-/

namespace Jvm

/-- Nothing in the program goes on without instructions that are counted. -/
structure ClassDictionary.Bounded (d : ClassDictionary) : Prop where
  /-- No method is the one by which methods are called by reflection. -/
  program : ∀ owner c, d.get? owner = some c → ∀ m ∈ c.methods, ¬ Library.IsInvoker owner (m.name ++ m.descriptor)
  /-- The searches for static fields settle. -/
  settled : ∀ owner c, d.get? owner = some c → ∀ m ∈ c.methods, m.Settled d

/-! ### Classes that retain what they had -/

/-- `c'` has the name, the superclass and the fields of `c`, and its methods have the names of methods of `c` and
load and store no other static fields than those. -/
structure ClassFile.Retains (c c' : ClassFile) : Prop where
  name : c'.name = c.name
  superName : c'.superName = c.superName
  fields : c'.fields = c.fields
  methods : ∀ m' ∈ c'.methods, ∃ m ∈ c.methods, m'.name = m.name ∧ m'.descriptor = m.descriptor ∧
    ∀ searched, m.Searches searched → m'.Searches searched

namespace ClassDictionary

variable {cs cs' : List ClassFile} {c c' : ClassFile} {d d' : ClassDictionary}

open ClassFile (Retains)

theorem retains_insertSorted (hc : c.Retains c') (h : List.Forall₂ Retains cs cs') :
    List.Forall₂ Retains (insertSorted c cs) (insertSorted c' cs') := by
  induction h with
  | nil => exact .cons hc .nil
  | cons hx hrest ih =>
    rw [insertSorted, insertSorted, hc.name, hx.name]
    split
    · exact .cons hc hrest
    · split
      · exact .cons hc (.cons hx hrest)
      · exact .cons hx ih

theorem retains_classes (h : List.Forall₂ Retains cs cs') :
    List.Forall₂ Retains (ofList cs).classes (ofList cs').classes := by
  have hfrom : ∀ {cs cs'}, List.Forall₂ Retains cs cs' → ∀ {d d' : ClassDictionary},
      List.Forall₂ Retains d.classes d'.classes →
      List.Forall₂ Retains (cs.foldl insert d).classes (cs'.foldl insert d').classes := by
    intro cs cs' h
    induction h with
    | nil => exact id
    | cons hc _ ih => exact fun hd => ih (retains_insertSorted hc hd)
  exact hfrom h .nil

theorem retains_get? (h : List.Forall₂ Retains cs cs') (name : String) :
    Option.Rel Retains ((ofList cs).get? name) ((ofList cs').get? name) := by
  have hfind : ∀ {xs ys : List ClassFile}, List.Forall₂ Retains xs ys →
      Option.Rel Retains (xs.find? (·.name == name)) (ys.find? (·.name == name)) := by
    intro xs ys h
    induction h with
    | nil => exact .none
    | cons hc _ ih =>
      rw [List.find?_cons, List.find?_cons, hc.name]
      split
      · exact .some hc
      · exact ih
  exact hfind (retains_classes h)

variable (hd : ∀ name, Option.Rel Retains (d.get? name) (d'.get? name))

include hd

theorem exists_retaining {name : String} (hc : d.get? name = some c) : ∃ c', d'.get? name = some c' ∧ c.Retains c' := by
  have hrel := hd name
  rw [hc] at hrel
  cases hc' : d'.get? name with
  | none => rw [hc'] at hrel; cases hrel
  | some c' =>
    rw [hc'] at hrel
    cases hrel with
    | some h => exact ⟨c', rfl, h⟩

theorem exists_retained {name : String} (hc' : d'.get? name = some c') :
    ∃ c, d.get? name = some c ∧ c.Retains c' := by
  have hrel := hd name
  rw [hc'] at hrel
  cases hc : d.get? name with
  | none => rw [hc] at hrel; cases hrel
  | some c =>
    rw [hc] at hrel
    cases hrel with
    | some h => exact ⟨c, rfl, h⟩

theorem Settles.retains {field owner : String} (h : d.Settles field owner) : d'.Settles field owner := by
  induction h with
  | @missing owner hc =>
    refine .missing (Option.eq_none_iff_forall_ne_some.2 fun c' hc' => ?_)
    obtain ⟨c, hc₁, -⟩ := exists_retained hd hc'
    cases hc.symm.trans hc₁
  | @found _ c f hc hf =>
    obtain ⟨c', hc', h⟩ := exists_retaining hd hc
    have hfield : c'.field? field = c.field? field := by rw [ClassFile.field?, h.fields, ClassFile.field?]
    exact .found hc' (hfield ▸ hf)
  | top hc hsuper =>
    obtain ⟨c', hc', h⟩ := exists_retaining hd hc
    exact .top hc' (h.superName.trans hsuper)
  | above hc hsuper _ ih =>
    obtain ⟨c', hc', h⟩ := exists_retaining hd hc
    exact .above hc' (h.superName.trans hsuper) ih

theorem Bounded.retains (h : d.Bounded) : d'.Bounded := by
  constructor
  · intro owner c' hc' m' hm'
    obtain ⟨c, hc, hkept⟩ := exists_retained hd hc'
    obtain ⟨m, hm, hname, hdescriptor, -⟩ := hkept.methods m' hm'
    rw [hname, hdescriptor]
    exact h.program owner c hc m hm
  · intro owner c' hc' m' hm'
    obtain ⟨c, hc, hkept⟩ := exists_retained hd hc'
    obtain ⟨m, hm, -, -, hsearched⟩ := hkept.methods m' hm'
    exact fun b hb i hi f hf => (hsearched _ (h.settled owner c hc m hm) b hb i hi f hf).retains hd

end ClassDictionary

theorem Instruction.staticField?_retarget (f : Nat → Nat) (i : Instruction) :
    (i.retarget f).staticField? = i.staticField? := by
  obtain ⟨opcode, operand⟩ := i
  cases operand <;> rfl

namespace Decryption

variable {p : Pass} {d : ClassDictionary} {c c' : ClassFile} {m m' : Method} {s : Summary} {cs : List ClassFile}
  {r : Pass.Run}

/-! ### What a run retains -/

/-- A rewritten body has the instructions for static fields that were there before. -/
theorem Rewritten.exists_staticField {owner : String} {folds : List Fold} {b b' : MethodBody}
    (h : Rewritten owner folds b b') {i' : Instruction} (hi' : i' ∈ b'.instructions) {f : MemberRef}
    (hf : i'.staticField? = some f) : ∃ i ∈ b.instructions, i.staticField? = some f := by
  obtain ⟨n', hn'⟩ := Array.mem_iff_getElem?.1 hi'
  obtain ⟨n, i, hn, hi, rfl⟩ := h.onto n' i' hn'
  by_cases hl : n ∈ folds.map Fold.literal
  · obtain ⟨fold, hfold, rfl⟩ := List.mem_map.1 hl
    cases hn'.symm.trans (h.replaced fold hfold).2.2
    cases hf
  · cases hn'.symm.trans (h.kept n i hn hl hi)
    exact ⟨i, Array.mem_of_getElem? hi, (Instruction.staticField?_retarget _ i).symm.trans hf⟩

theorem searches_rewritten {owner : String} {folds : List Fold} (h : Option.Rel (Rewritten owner folds) m.body m'.body)
    {searched : MemberRef → Prop} (hm : m.Searches searched) : m'.Searches searched := by
  intro b' hb' i' hi' f hf
  rw [hb'] at h
  cases hb : m.body with
  | none => rw [hb] at h; cases h
  | some b =>
    rw [hb] at h
    cases h with
    | some h =>
      obtain ⟨i, hi, hfield⟩ := h.exists_staticField hi' hf
      exact hm b hb i hi f hfield

theorem Pass.Preserves.retains (h : p.Preserves d c c') : c.Retains c' := by
  refine ⟨by rw [h.others], by rw [h.others], by rw [h.others], fun m' hm' => ?_⟩
  obtain ⟨m, hm, heq, hbody⟩ := exists_of_forall₂ h.methods hm'
  exact ⟨m, hm, by rw [heq], by rw [heq], fun _ => searches_rewritten hbody⟩

/-- A run leaves a bounded program bounded. -/
theorem bounded_run (ho : p.obfuscator.Faithful) (h : p.run s cs = .ok r) (hd : (ClassDictionary.ofList cs).Bounded) :
    (ClassDictionary.ofList r.classes).Bounded :=
  hd.retains (ClassDictionary.retains_get? (((run_preserves ho s cs).2 r h).1.imp fun _ _ hc => hc.retains))

/-! ### Decryptors that are cut off -/

/-- In this state and with this value for the text, a decryptor is executed. -/
def Pass.Enters (p : Pass) (d : ClassDictionary) (c : ClassFile) (site : CallSite) (text : Units) (input : Value)
    (s : State) : Prop :=
  ∃ s₁, Exec.pushFrame c.name site.methodName (Int32.ofNat c.poolSize.toNat) (p.world d site)
      (.start p.config.limits) = .ok () s₁ ∧ Exec.intern text (p.world d site) s₁ = .ok input s

variable {site : CallSite} {text : Units} {input : Value} {t : State} {decryptor : ClassFile × Method}

/-- There is nothing but the text then, and the heap is in order. -/
theorem Pass.Enters.heap (h : p.Enters d c site text input t) : t.heap.Proper ∧
    t.heap.limit = p.config.limits.heapObjects ∧ t.heap.Holds fun q => ∀ o, q ≠ .method o := by
  obtain ⟨s₁, hpush, hintern⟩ := h
  have hempty : s₁.heap = Heap.empty p.config.limits.heapObjects := by
    rw [Exec.pushFrame_apply] at hpush
    split at hpush <;> cases hpush
    rfl
  have hchanges : Exec.Changes False _ (Exec.intern text) := (Exec.Alike.intern text).changes
  have hleads := (hchanges.of_ok hintern).2.heap
  rw [hempty] at hleads
  refine ⟨hleads.proper (Heap.proper_empty _), hleads.lasts.limit, ?_⟩
  have hnone : s₁.heap.Holds fun q => ∀ o, q ≠ .method o := hempty ▸ nofun
  rcases Heap.interning_ok ((Exec.onHeap_intern text).of_ok hintern) with ⟨-, -, -, heq⟩ | ⟨-, -, -, heq⟩
  · exact heq ▸ hnone
  · exact heq ▸ hnone.push "java/lang/String" (p := some (.string text)) fun q hq o => by cases hq; exact nofun

/-- Only the execution of a decryptor is cut off. -/
theorem decryptWithin_eq_cut {fuel : Nat} : p.decryptWithin d c site fuel decryptor text = .error .outOfFuel ↔
    ∃ input s t, p.Enters d c site text input s ∧ Chain.standard.executeWithin fuel decryptor.1 decryptor.2 [input]
      none (p.world d site) s = .error .outOfFuel t := by
  refine plainOf?_eq_cut.trans ⟨?_, ?_⟩
  · rintro ⟨t, h⟩
    rcases Exec.bind_error h with hpush | ⟨_, s₁, hpush, h⟩
    · rw [Exec.pushFrame_apply] at hpush
      split at hpush <;> cases hpush
    rcases Exec.bind_error h with hintern | ⟨input, s₂, hintern, h⟩
    · obtain ⟨f, -, hfault⟩ := (Exec.onHeap_intern text).of_error hintern
      cases hfault
    exact ⟨input, s₂, t, ⟨s₁, hpush, hintern⟩, h⟩
  · rintro ⟨input, s₂, t, ⟨s₁, hpush, hintern⟩, h⟩
    refine ⟨t, ?_⟩
    rw [Exec.bind_apply, hpush]
    dsimp only
    rw [Exec.bind_apply, hintern]
    exact h

/-- A decryptor that is cut off does not end, whatever the fuel. -/
theorem decryptWithin_unending (hbudget : p.config.limits.instructions ≠ 0)
    (h : p.decrypt d c site decryptor text = .error .outOfFuel) (fuel : Nat) :
    p.decryptWithin d c site fuel decryptor text = .error .outOfFuel := by
  rw [decrypt_eq] at h
  obtain ⟨input, s, t, henters, hcut⟩ := decryptWithin_eq_cut.1 h
  obtain ⟨hproper, hlimit, -⟩ := henters.heap
  obtain ⟨t', hcut'⟩ := Chain.executeWithin_unending hbudget hproper hlimit hcut fuel
  exact decryptWithin_eq_cut.2 ⟨input, s, t', henters, hcut'⟩

/-- In a bounded program a decryptor ends. -/
theorem decrypt_ends (hbudget : p.config.limits.instructions ≠ 0) (hd : d.Bounded) (hm : decryptor.2.Settled d)
    (c : ClassFile) (site : CallSite) (text : Units) : p.decrypt d c site decryptor text ≠ .error .outOfFuel := by
  intro h
  rw [decrypt_eq] at h
  obtain ⟨input, s, t, henters, hcut⟩ := decryptWithin_eq_cut.1 h
  obtain ⟨-, -, hplain⟩ := henters.heap
  have hbounded : (p.world d site).Bounded s decryptor.2 :=
    ⟨hd.program, fun id o ho => absurd rfl (hplain id _ ho o), hd.settled, hm⟩
  obtain ⟨result, hends, hresult⟩ :=
    @Chain.exists_execute (p.world d site) s decryptor.1 decryptor.2 [input] none hbudget hbounded
  exact hends t ((hresult _ le_rfl).symm.trans hcut)

/-! ### Runs that return -/

/-- The decryptor of a call in one of the classes does not end: it is cut off, whatever the fuel. -/
def Pass.HangsOn (p : Pass) (cs : List ClassFile) : Prop :=
  ∃ c ∈ cs, ∃ m ∈ c.methods, ∃ n decryptor text, p.Decrypts (.ofList cs) c m n decryptor text ∧
    ∀ fuel, p.decryptWithin (.ofList cs) c ⟨c.name, m.name, m.descriptor, n⟩ fuel decryptor text = .error .outOfFuel

/-- A run with a budget does not return exactly if it comes to a call whose decryptor does not end. -/
theorem run_hangs (hbudget : p.config.limits.instructions ≠ 0) {stop : Stop} :
    p.run s cs = .error stop ↔ stop = .outOfFuel ∧ p.HangsOn cs := by
  rw [run_eq_error hbudget]
  refine and_congr_right fun _ => ⟨?_, ?_⟩
  · rintro ⟨c, hc, m, hm, n, decryptor, text, hdecrypts, hcut⟩
    exact ⟨c, hc, m, hm, n, decryptor, text, hdecrypts, decryptWithin_unending hbudget hcut⟩
  · rintro ⟨c, hc, m, hm, n, decryptor, text, hdecrypts, hcut⟩
    exact ⟨c, hc, m, hm, n, decryptor, text, hdecrypts, decrypt_eq.trans (hcut _)⟩

theorem exists_run (ho : p.obfuscator.Direct) (hbudget : p.config.limits.instructions ≠ 0)
    (hd : (ClassDictionary.ofList cs).Bounded) (s : Summary) : ∃ r, p.run s cs = .ok r := by
  cases hrun : p.run s cs with
  | ok r => exact ⟨r, rfl⟩
  | error stop =>
    obtain ⟨-, c, -, m, -, n, decryptor, text, ⟨_, _, _, call, _, -, -, -, -, hdecryptor, -, -⟩, hcut⟩ :=
      (run_eq_error hbudget).1 hrun
    obtain ⟨index, hbody, hm, -⟩ := Obfuscator.staticHelper?_spec (ho _ _ _ hdecryptor)
    have hclass := (ClassDictionary.methodWithBody?_eq_some.1 hbody).class_eq
    have hsettled := hd.settled _ _ hclass _ (List.mem_of_getElem? hm)
    exact absurd hcut (decrypt_ends hbudget hd hsettled _ _ _)

end Decryption

end Jvm
