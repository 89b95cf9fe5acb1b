import Jvm.Proofs.Decryption.Attempts
import Jvm.Proofs.Flow.Trace
import Jvm.Proofs.Machine.Ancestors
import Jvm.Proofs.Machine.Heap
import Jvm.Proofs.Machine.Returns

/-!
# The calls that are folded

What holds at each `Fold` that a scan finds (`Site`): the literal's instruction loads a text, the call
takes nothing but that literal and pushes one entry, and no other instruction takes the literal. The
last is what the count of consumers says (`eq_of_consumers`); that the call pushes an entry follows from
the run of the decryptor, which returned an object, so that its type is a reference type.
-/

namespace Jvm

theorem Instruction.eq_of_loaded_string {i : Instruction} {text : Units}
    (h : i.loaded? = some (.string text)) : i = ⟨.ldc, .const (.string text)⟩ := by
  obtain ⟨opcode, operand⟩ := i
  cases opcode <;> cases operand <;> simp_all [loaded?, constant?]

namespace Decryption

/-- The method that a call runs has the descriptor of the call. -/
def Obfuscator.Faithful (o : Obfuscator) : Prop :=
  ∀ d call c m, o.decryptor? d call = some (c, m) → m.descriptor = call.descriptor

/-- The decryptor of a call is the static method with code that the call names. -/
def Obfuscator.Direct (o : Obfuscator) : Prop :=
  ∀ d call decryptor, o.decryptor? d call = some decryptor → staticHelper? d call = some decryptor

theorem Obfuscator.staticHelper?_spec {d : ClassDictionary} {call : MemberRef} {c : ClassFile} {m : Method}
    (h : staticHelper? d call = some (c, m)) : ∃ index,
      d.methodWithBody? call.owner call.name call.descriptor = some (c, index) ∧ c.methods[index]? = some m ∧
      m.isStatic = true := by
  simp only [staticHelper?, bind, Option.bind_eq_some_iff] at h
  obtain ⟨⟨c', index⟩, hc, m', hm, h⟩ := h
  split at h <;> cases h
  exact ⟨index, hc, hm, ‹_›⟩

theorem Obfuscator.Direct.faithful {o : Obfuscator} (ho : o.Direct) : o.Faithful := by
  intro d call c m h
  obtain ⟨index, hc, hm, -⟩ := staticHelper?_spec (ho d call (c, m) h)
  obtain ⟨m', hm', -, hdescriptor, -⟩ := (ClassDictionary.methodWithBody?_eq_some.1 hc).method
  obtain rfl := Option.some.inj (hm.symm.trans hm')
  exact hdescriptor

theorem Obfuscator.direct_allatori : allatori.Direct := fun _ _ _ h => h

theorem Obfuscator.faithful_allatori : allatori.Faithful := direct_allatori.faithful

/-- What a scan knows of the literal and of the call that it folds. -/
structure Fold.Site (code : Array Instruction) (a : Analysis) (f : Fold) : Prop where
  literal : ∃ text, code[f.literal]? = some ⟨.ldc, .const (.string text)⟩
  call : ∃ i kind m, code[f.call]? = some i ∧ i = ⟨.invoke kind, .method m⟩ ∧
    i.stackEffect? = some (.replace 1 (some ⟨.single, none⟩))
  argument : ∃ e text, a.entry? f.call = some e ∧ e.consumed = [.literal (.string text) f.literal]
  unshared : a.consumers f.literal = 1

end Decryption

/-! ### Counting consumers -/

theorem eq_of_countP_one {α : Type} {p : α → Bool} {xs : List α} {n m : Nat} {x y : α}
    (h : xs.countP p = 1) (hn : xs[n]? = some x) (hm : xs[m]? = some y) (hx : p x = true)
    (hy : p y = true) : n = m := by
  induction xs generalizing n m with
  | nil => simp at hn
  | cons z xs ih =>
    rw [List.countP_cons] at h
    have hpos : ∀ k u, xs[k]? = some u → p u = true → 0 < xs.countP p := fun k u hu hp =>
      List.countP_pos_iff.2 ⟨u, List.mem_of_getElem? hu, hp⟩
    cases n with
    | zero =>
      cases m with
      | zero => rfl
      | succ m =>
        simp only [List.getElem?_cons_zero, Option.some.injEq, List.getElem?_cons_succ] at hn hm
        have := hpos m y hm hy
        rw [hn, hx] at h
        simp only [if_true] at h
        omega
    | succ n =>
      cases m with
      | zero =>
        simp only [List.getElem?_cons_zero, Option.some.injEq, List.getElem?_cons_succ] at hn hm
        have := hpos n x hn hx
        rw [hm, hy] at h
        simp only [if_true] at h
        omega
      | succ m =>
        simp only [List.getElem?_cons_succ] at hn hm
        have := hpos n x hn hx
        rw [ih (by split at h <;> omega) hn hm]

namespace Analysis

theorem consumers_eq (a : Analysis) (source : Nat) : a.consumers source =
    a.entries.toList.countP (·.any fun e => e.consumed.any (·.mayComeFrom source)) := by
  rw [consumers, ← List.countP_eq_length_filter, List.countP_filterMap]
  refine List.countP_congr fun o _ => ?_
  cases o <;> simp

/-- Where the count is one there is one consumer. -/
theorem eq_of_consumers {a : Analysis} {source n m : Nat} {e e' : FlowEntry}
    (h : a.consumers source = 1) (hn : a.entry? n = some e) (hm : a.entry? m = some e')
    (he : e.consumed.any (·.mayComeFrom source) = true)
    (he' : e'.consumed.any (·.mayComeFrom source) = true) : n = m := by
  rw [consumers_eq] at h
  unfold entry? at hn hm
  rw [Option.join_eq_some_iff, ← Array.getElem?_toList] at hn hm
  exact eq_of_countP_one h hn hm he he'

end Analysis

/-! ### From the scan to its sites -/

namespace Flow

/-- A call leaves a frame that names its arguments. -/
theorem exists_arguments {owner : String} {n : Nat} {kind : InvokeKind} {m : MemberRef}
    {stack after : List Frame} {e : FlowEntry}
    (h : transfer owner n ⟨.invoke kind, .method m⟩ stack = .ok (e, after)) :
    ∃ f arguments, e.produced = some f ∧ f.arguments? = some arguments := by
  obtain ⟨d, -, -, hproduced, -⟩ := transfer_call h
  exact ⟨_, _, hproduced, rfl⟩

/-- The frames that a call takes are the arguments that its result names. -/
theorem transfer_invoke {owner : String} {n : Nat} {kind : InvokeKind} {m : MemberRef}
    {stack after : List Frame} {e : FlowEntry} {f : Frame} {arguments : List Frame}
    (h : transfer owner n ⟨.invoke kind, .method m⟩ stack = .ok (e, after)) (hf : e.produced = some f)
    (ha : f.arguments? = some arguments) : e.consumed = arguments ∧ ∃ d,
      MethodDescriptor.parse m.descriptor = .ok d ∧
      arguments.length = d.parameters.length + (if kind = .static then 0 else 1) := by
  obtain ⟨d, hd, hlength, hproduced, -⟩ := transfer_call h
  obtain rfl := Option.some.inj (hproduced.symm.trans hf)
  obtain rfl : e.consumed = arguments := Option.some.inj ha
  exact ⟨rfl, d, hd, hlength⟩

end Flow

namespace Decryption

variable {p : Pass} {d : ClassDictionary} {c : ClassFile} {m : Method} {b : MethodBody} {a : Analysis}

theorem single_of_ref {id : Nat} {t : FieldType} (h : (Value.ref id).fits t = true) :
    t.isVoid = false ∧ Flow.widthOf t = .single := by
  cases t with
  | object | array => exact ⟨rfl, rfl⟩
  | _ => cases h

/-- The text that a decryptor's result refers to. -/
def plainOf? : EStateM.Result Stop State Value → Except Stop (Option Units)
  | .ok (.ref id) s =>
    match s.heap.narrow View.string (.ref id) with
    | .ok plain => .ok (some plain)
    | .error f => .error (.error (.emulation f))
  | .ok _ _ => .ok none
  | .error stop _ => .error stop

theorem plainOf?_eq_some {result : EStateM.Result Stop State Value} {plain : Units} :
    plainOf? result = .ok (some plain) ↔
      ∃ id s, result = .ok (.ref id) s ∧ s.heap.contents? id = some (.string plain) := by
  unfold plainOf?
  split
  · rename_i id s
    have hread : s.heap.narrow View.string (.ref id) = .ok plain ↔ _ := Heap.narrow_string
    cases hnarrow : s.heap.narrow View.string (.ref id) with
    | error => simp_all
    | ok plain' => simp_all
  · rename_i v s hv
    simp_all
  · simp

theorem plainOf?_eq_cut {result : EStateM.Result Stop State Value} :
    plainOf? result = .error .outOfFuel ↔ ∃ s, result = .error .outOfFuel s := by
  constructor
  · intro h
    unfold plainOf? at h
    split at h
    · split at h <;> cases h
    · cases h
    · cases h
      exact ⟨_, rfl⟩
  · rintro ⟨s, rfl⟩
    rfl

/-- What a decryptor finds with some fuel, in a machine of its own and below the frame of the method that calls
it. -/
def Pass.decryptWithin (p : Pass) (d : ClassDictionary) (caller : ClassFile) (site : CallSite) (fuel : Nat)
    (decryptor : ClassFile × Method) (text : Units) : Except Stop (Option Units) :=
  let act : Exec Value := do
    Exec.pushFrame caller.name site.methodName (Int32.ofNat caller.poolSize.toNat)
    let input ← Exec.intern text
    Chain.standard.executeWithin fuel decryptor.1 decryptor.2 [input] none
  plainOf? (act (p.world d site) (.start p.config.limits))

theorem decrypt_eq {site : CallSite} {decryptor : ClassFile × Method} {text : Units} :
    p.decrypt d c site decryptor text = p.decryptWithin d c site (p.world d site).fuel decryptor text := by
  rw [Pass.decrypt, Pass.decryptWithin, Exec.bind_apply, Exec.bind_apply]
  cases Exec.pushFrame c.name site.methodName (Int32.ofNat c.poolSize.toNat) (p.world d site)
      (.start p.config.limits) with
  | error => rfl
  | ok _ s =>
    dsimp only
    rw [Exec.bind_apply, Exec.bind_apply]
    cases Exec.intern text (p.world d site) s with
    | error => rfl
    | ok input s =>
      dsimp only
      rw [Exec.bind_apply, Chain.execute, Exec.bind_apply, Exec.read_apply]
      dsimp only
      cases Chain.standard.executeWithin (p.world d site).fuel decryptor.1 decryptor.2 [input] none
          (p.world d site) s with
      | error => rfl
      | ok v s =>
        cases v with
        | ref id =>
          dsimp only
          rw [map_eq_pure_bind, Exec.bind_apply, Exec.narrow, Exec.readHeap_apply, plainOf?]
          cases s.heap.narrow View.string (.ref id) <;> rfl
        | _ => rfl

/-- A decryptor that returned an object takes one argument and returns a reference. -/
theorem decrypt_type {site : CallSite} {decryptor : ClassFile × Method} {text plain : Units}
    (h : p.decrypt d c site decryptor text = .ok (some plain)) : ∃ md,
      MethodDescriptor.parse decryptor.2.descriptor = .ok md ∧ md.parameters.length = 1 ∧
      md.returns.isVoid = false ∧ Flow.widthOf md.returns = .single := by
  rw [decrypt_eq, Pass.decryptWithin, plainOf?_eq_some] at h
  obtain ⟨id, s, hrun, -⟩ := h
  obtain ⟨_, _, -, hrun⟩ := Exec.bind_ok hrun
  obtain ⟨input, _, -, hrun⟩ := Exec.bind_ok hrun
  obtain ⟨md, hmd, hlen, hfits⟩ := Chain.fits_executeWithin hrun
  exact ⟨md, hmd, hlen.symm, single_of_ref hfits⟩

theorem attempt_spec {i : Instruction} {n : Nat} {t : Attempt} {f : Fold}
    (h : p.attempt? d c m a i n = some (.ok t)) (hf : t.fold? = some f) :
    f.call = n ∧ ∃ kind call decryptor text, i = ⟨.invoke kind, .method call⟩ ∧
      p.obfuscator.decryptor? d call = some decryptor ∧
      a.callArguments? n = some [.literal (.string text) f.literal] ∧ a.consumers f.literal = 1 ∧
      p.decrypt d c t.site decryptor text = .ok (some f.plain) := by
  obtain ⟨call, decryptor, arguments, hcallee, harguments, -, hsite, hfinding⟩ := finding_of_attempt? h
  obtain ⟨hcall, hdecrypted⟩ := fold?_eq_some.1 hf
  rw [hdecrypted] at hfinding
  obtain ⟨text, rfl, hconsumers, hdecrypt⟩ := finding_decrypted hfinding
  obtain ⟨⟨kind, rfl⟩, -, hdecryptor⟩ := callee?_eq_some.1 hcallee
  rw [hsite] at hcall
  exact ⟨hcall, kind, call, decryptor, text, rfl, hdecryptor, harguments, hconsumers, hdecrypt⟩

/-- The one argument of a call that takes one is what the literal's instruction pushed. -/
theorem literal_spec {b : MethodBody} (ha : Flow.analyze c.name b = .ok a) {n literal : Nat} {kind : InvokeKind}
    {call : MemberRef} {text : Units} {md : MethodDescriptor}
    (hi : b.instructions[n]? = some ⟨.invoke kind, .method call⟩)
    (harguments : a.callArguments? n = some [.literal (.string text) literal])
    (hmd : MethodDescriptor.parse call.descriptor = .ok md) (hlen : md.parameters.length = 1) :
    kind = .static ∧ b.instructions[literal]? = some ⟨.ldc, .const (.string text)⟩ ∧
      ∃ e, a.entry? n = some e ∧ e.consumed = [.literal (.string text) literal] := by
  rw [Analysis.callArguments?] at harguments
  simp only [bind, Option.bind_eq_some_iff] at harguments
  obtain ⟨e, he, f, hf, hargs⟩ := harguments
  obtain ⟨i, stack, after, hi', htransfer, hvalid⟩ := Flow.entry_spec ha he
  obtain rfl : i = _ := Option.some.inj (hi'.symm.trans hi)
  obtain ⟨htaken, md', hmd', hcount⟩ := Flow.transfer_invoke htransfer hf hargs
  obtain rfl : md = md' := Except.ok.inj (hmd.symm.trans hmd')
  have hkind : kind = .static := by
    by_contra hk
    rw [if_neg hk, hlen] at hcount
    simp at hcount
  have hloaded := (hvalid _ (htaken ▸ List.mem_singleton_self _)).loaded _ _ rfl
  rw [Option.bind_eq_some_iff] at hloaded
  obtain ⟨i, hload, htext⟩ := hloaded
  exact ⟨hkind, hload.trans (congrArg some (Instruction.eq_of_loaded_string htext)), e, he, htaken⟩

/-- Every fold that is found is at a site. -/
theorem site_of_mem (ho : p.obfuscator.Faithful) (hb : m.body = some b)
    (ha : Flow.analyze c.name b = .ok a) {f : Fold} (hf : f ∈ p.folds d c m) :
    f.Site b.instructions a := by
  obtain ⟨t, ht, hfold⟩ := mem_folds.1 hf
  obtain ⟨b', a', i, n, hb', ha', hi, hattempt⟩ := exists_attempt ht
  obtain rfl : b = b' := Option.some.inj (hb.symm.trans hb')
  obtain rfl : a = a' := Except.ok.inj (ha.symm.trans ha')
  obtain ⟨rfl, kind, call, decryptor, text, rfl, hdec, harguments, hconsumers, hrun⟩ :=
    attempt_spec hattempt hfold
  obtain ⟨md, hmd, hlen, hvoid, hwidth⟩ := decrypt_type hrun
  rw [ho _ _ _ _ hdec] at hmd
  obtain ⟨rfl, hliteral, e, he, htaken⟩ := literal_spec ha hi harguments hmd hlen
  refine ⟨⟨text, hliteral⟩, ⟨_, .static, call, hi, rfl, ?_⟩, ⟨e, text, he, htaken⟩, hconsumers⟩
  simp [Instruction.stackEffect?, Instruction.callEffect, hmd, hlen, hvoid, hwidth]

/-- Two folds have different literals: a literal of both would have two consumers. -/
theorem distinct_folds {code : Array Instruction} {folds : List Fold}
    (hs : ∀ f ∈ folds, f.Site code a) (ho : (folds.map Fold.call).Pairwise (· < ·)) :
    folds.Pairwise fun f g => f.literal ≠ g.literal := by
  rw [List.pairwise_map] at ho
  refine List.Pairwise.imp_of_mem (fun {f g} hf hg hlt heq => ?_) ho
  obtain ⟨e, text, he, hargs⟩ := (hs f hf).argument
  obtain ⟨e', text', he', hargs'⟩ := (hs g hg).argument
  have hcall := Analysis.eq_of_consumers (hs f hf).unshared he he' (by simp [hargs, Frame.mayComeFrom, Frame.source?])
    (by simp [hargs', heq, Frame.mayComeFrom, Frame.source?])
  omega

end Decryption

end Jvm
