import Jvm.Proofs.Decryption.Refinement
import Jvm.Proofs.Machine.Relay

/-!
# What the call would return

The pass executes a decryptor directly, where a call sets up the class of the method first. So what it
finds is what the call returns if nothing runs when that class is set up (`ClassDictionary.Idle`), and in
general it need not be (`decrypted_before_setUp`): up to the limits, the call returns what the pass would
find if it set up the class (`Pass.decryptCalled`). `decrypted_as_called` says so of every call that a run
of the pass decrypts. That the call is made at all, and by a method with the names of the caller, makes no
difference.
-/

namespace Jvm.Decryption

/-- The attempt is at a call in a method, which is given a text that another instruction loads. -/
structure Attempt.Calls (t : Attempt) (c : ClassFile) (m : Method) (literal : Nat) (text : Units)
    (call : MemberRef) : Prop where
  site : t.site = ⟨c.name, m.name, m.descriptor, t.site.index⟩
  decryptor : t.decryptor = call.owner ++ "." ++ call.name
  instructions : ∃ b, m.body = some b ∧ b.instructions[literal]? = some ⟨.ldc, .const (.string text)⟩ ∧
    b.instructions[t.site.index]? = some ⟨.invoke .static, .method call⟩

namespace Pass

/-- Sets up the class that is called and executes the decryptor. -/
def executeCalled (fuel : Nat) (call : MemberRef) (decryptor : ClassFile × Method) (text : Units) :
    Exec Value := do
  let input ← Exec.intern text
  Chain.standard.initClassWithin (fuel + 1) call.owner
  Chain.standard.executeWithin fuel decryptor.1 decryptor.2 [input] none

/-- What `Pass.decrypt` would find if the class that is called were set up first. -/
def decryptCalled (p : Pass) (d : ClassDictionary) (caller : ClassFile) (site : CallSite) (fuel : Nat)
    (call : MemberRef) (decryptor : ClassFile × Method) (text : Units) : Except Stop (Option Units) :=
  plainOf? ((Exec.pushFrame caller.name site.methodName (Int32.ofNat caller.poolSize.toNat) >>= fun _ =>
    executeCalled fuel call decryptor text) (p.world d site) (.start p.config.limits))

/-- What a method with the name of the one at the site finds that makes the call and returns its result, in a
machine of its own. `fuel` is left for the method that is called. -/
def relay (p : Pass) (d : ClassDictionary) (owner : ClassFile) (site : CallSite) (fuel : Nat) (text : Units)
    (call : MemberRef) : Except Stop (Option Units) :=
  plainOf? (Chain.standard.executeWithin (fuel + 4) owner (.relay site.methodName text call) [] none
    (p.world d site) (.start p.config.limits))

end Pass

/-- The text was found, or a limit was reached. -/
def Gives (text : Units) (found : Except Stop (Option Units)) : Prop :=
  found = .ok (some text) ∨ ∃ e, found = .error e ∧ e.faultKind = some .stepBudget

variable {p : Pass} {d : ClassDictionary} {c owner : ClassFile} {site : CallSite} {call : MemberRef}
  {decryptor : ClassFile × Method} {text plain : Units} {fuel n : Nat}

/-- A call of a decryptor executes it. -/
structure Runs (d : ClassDictionary) (call : MemberRef) (decryptor : ClassFile × Method) : Prop where
  descriptor : call.descriptor = "(Ljava/lang/String;)Ljava/lang/String;"
  helper : Obfuscator.staticHelper? d call = some decryptor

theorem Runs.invokeWithin (h : Runs d call decryptor) {w : World} (hw : w.program = d) (arguments : List Value)
    (s : State) : Chain.standard.invokeWithin (fuel + 1) (.onClass call arguments) w s =
      Chain.standard.executeWithin fuel decryptor.1 decryptor.2 arguments none w s := by
  obtain ⟨index, hc, hm, hstatic⟩ := Obfuscator.staticHelper?_spec h.helper
  subst hw
  exact Chain.invokeWithin_own h.descriptor hc hm hstatic

/-- The machine of a run before anything has run in it, below the frame of the caller. -/
theorem sound_entered {w : World} {limits : Limits} {line : Int32} {s₁ : State} {className : String}
    (h : Exec.pushFrame className name line w (.start limits) = .ok () s₁) : s₁.heap.Sound := by
  rw [Exec.pushFrame_apply] at h
  split at h <;> cases h
  exact Heap.sound_empty _

/-- A relay finds what is found where the decryptor is executed, once the class is set up. -/
theorem gives_relay (hcall : Runs d call decryptor) {s₁ s₂ s₃ s₄ : State} {input : Value} {id : Nat}
    (hpush : Exec.pushFrame owner.name site.methodName (Int32.ofNat owner.poolSize.toNat) (p.world d site)
      (.start p.config.limits) = .ok () s₁)
    (hintern : Exec.intern text (p.world d site) s₁ = .ok input s₂)
    (hsetup : ∀ t, s₂.Precedes d t →
      Exec.Follows d () s₃ (Chain.standard.initClassWithin (fuel + 1) call.owner (p.world d site) t))
    (hs₃ : s₂.Evolves s₃)
    (hrun : Chain.standard.executeWithin n decryptor.1 decryptor.2 [input] none (p.world d site) s₃ = .ok (.ref id) s₄)
    (hfuel : n ≤ fuel) (hid : s₄.heap.contents? id = some (.string plain)) :
    Gives plain (p.relay d owner site fuel text call) := by
  have hlevel := Chain.level Chain.ordinary_standard hfuel
  have hs₁ := sound_entered hpush
  obtain ⟨-, hs₂⟩ := (Exec.Refines.intern text).keeps _ _ _ _ hs₁ hintern
  obtain ⟨-, hs₄⟩ := (hlevel.execute _ _ _ _).keeps _ _ _ _ hs₃.sound hrun
  have hinvoke : ∀ t, s₃.Precedes d t → Exec.Follows d (.ref id) s₄
      (Chain.standard.invokeWithin (fuel + 1) (.onClass call [input]) (p.world d site) t) := by
    intro t ht
    rw [hcall.invokeWithin rfl]
    exact (hlevel.execute _ _ _ _).follows (p.world d site) _ _ _ _ ht hs₃.sound hrun
  have hfollows : Exec.Follows d (.ref id) s₄ (Chain.standard.relayed (p.world d site).limits.stackDepth (fuel + 1)
      text call (p.world d site) s₁) := Chain.follows_relayed hs₁ hintern hsetup hinvoke rfl
  obtain ⟨t, hrelay, ht⟩ | ⟨e, t, hrelay, he⟩ := Chain.relay_of_follows hcall.descriptor hpush hfollows
    (hs₄.frames.trans (hs₃.frames.trans hs₂.frames))
  · exact .inl (plainOf?_eq_some.2 ⟨id, t, hrelay, ht ▸ hid⟩)
  · exact .inr ⟨e, by rw [Pass.relay, hrelay, plainOf?], he⟩

/-- A relay finds what the pass would find if it set up the class. -/
theorem gives_of_decryptCalled (hcall : Runs d call decryptor) (hfuel : n ≤ fuel)
    (h : p.decryptCalled d owner site n call decryptor text = .ok (some plain)) :
    Gives plain (p.relay d owner site fuel text call) := by
  obtain ⟨id, s₄, hrun, hid⟩ := plainOf?_eq_some.1 h
  obtain ⟨_, s₁, hpush, hrun⟩ := Exec.bind_ok hrun
  obtain ⟨input, s₂, hintern, hrun⟩ := Exec.bind_ok hrun
  obtain ⟨_, s₃, hinit, hrun⟩ := Exec.bind_ok hrun
  have hlevel := Chain.level Chain.ordinary_standard (Nat.succ_le_succ hfuel)
  obtain ⟨-, hs₂⟩ := (Exec.Refines.intern text).keeps _ _ _ _ (sound_entered hpush) hintern
  obtain ⟨-, hs₃⟩ := (hlevel.initClass _).keeps _ _ _ _ hs₂.sound hinit
  exact gives_relay hcall hpush hintern
    (fun t ht => (hlevel.initClass _).follows _ _ _ _ _ ht hs₂.sound hinit) hs₃ hrun hfuel hid

/-- The pass would find what a relay finds if it set up the class. -/
theorem decryptCalled_of_relay (hcall : Runs d call decryptor) (hfuel : fuel ≤ n)
    (h : p.relay d owner site fuel text call = .ok (some plain)) :
    Gives plain (p.decryptCalled d owner site n call decryptor text) := by
  obtain ⟨id, s₂, hrun, hid⟩ := plainOf?_eq_some.1 h
  obtain ⟨s₁, s₃, hpush, hheap, hfollows⟩ := Chain.follows_of_relay Chain.ordinary_standard hcall.descriptor
    hfuel (Heap.sound_empty _) hrun
  -- the call alone is the decryptor's execution, the type of whose result is checked
  have hcallText : Chain.standard.callText (n + 1) text call (p.world d site) s₁ =
      (Pass.executeCalled n call decryptor text >>= fun r =>
        r.asType (.object "java/lang/String") "invoke") (p.world d site) s₁ := by
    simp only [Chain.callText, Pass.executeCalled, bind_assoc]
    rw [Exec.bind_apply, Exec.bind_apply]
    cases Exec.intern text (p.world d site) s₁ with
    | error => rfl
    | ok input s =>
      dsimp only
      rw [Exec.bind_apply, Exec.bind_apply]
      cases Chain.standard.initClassWithin (n + 1) call.owner (p.world d site) s with
      | error => rfl
      | ok _ s =>
        dsimp only
        rw [Exec.bind_apply, Exec.bind_apply, hcall.invokeWithin rfl]
  rw [hcallText, Exec.bind_apply] at hfollows
  rw [Pass.decryptCalled, Exec.bind_apply, hpush]
  dsimp only
  cases hexecute : Pass.executeCalled n call decryptor text (p.world d site) s₁ with
  | error e s =>
    simp only [hexecute] at hfollows
    obtain ⟨t, ht, -⟩ | ⟨e', t, he', hlimit⟩ := hfollows
    · cases ht
    · cases he'
      exact .inr ⟨e, rfl, hlimit⟩
  | ok r s =>
    simp only [hexecute] at hfollows
    by_cases hr : r.isReferenceLike = true
    · rw [Step.asType_object hr] at hfollows
      obtain ⟨t, ht, hprec⟩ | ⟨e', t, he', -⟩ := hfollows
      · cases ht
        exact .inl (plainOf?_eq_some.2 ⟨id, s, rfl, by rw [hprec.heap, hheap]; exact hid⟩)
      · cases he'
    · have htype : r.asType (.object "java/lang/String") "invoke" =
          .error (r.mismatch "invoke" (Value.shapeName (.object "java/lang/String"))) := if_neg hr
      rw [htype] at hfollows
      obtain ⟨t, ht, -⟩ | ⟨e', t, he', hlimit⟩ := hfollows
      · cases ht
      · cases he'
        cases hlimit

/-- A relay finds what the pass finds where nothing runs when the class is set up. -/
theorem gives_of_idle (hcall : Runs d call decryptor) (hidle : d.Idle call.owner) (hfuel : (p.world d site).fuel ≤ fuel)
    (h : p.decrypt d owner site decryptor text = .ok (some plain)) :
    Gives plain (p.relay d owner site fuel text call) := by
  rw [decrypt_eq] at h
  obtain ⟨id, s₃, hrun, hid⟩ := plainOf?_eq_some.1 h
  obtain ⟨_, s₁, hpush, hrun⟩ := Exec.bind_ok hrun
  obtain ⟨input, s₂, hintern, hrun⟩ := Exec.bind_ok hrun
  obtain ⟨-, hs₂⟩ := (Exec.Refines.intern text).keeps _ _ _ _ (sound_entered hpush) hintern
  refine gives_relay hcall hpush hintern (fun t ht => ?_) (.refl hs₂.sound) hrun hfuel hid
  have hwaiting : (d.waiting t.started).length < fuel + 1 :=
    Nat.lt_succ_of_le ((d.length_waiting_le _).trans ((p.world d site).size_lt_fuel.le.trans hfuel))
  obtain ⟨t', hinit, ht', -⟩ := Chain.idle_initClassWithin (w := p.world d site) (s := t) hidle hwaiting
  exact .inl ⟨t', hinit, ht.trans ht'⟩

/-! ### The calls that a run decrypts -/

/-- Only the name and the pool of the class that calls make a difference. -/
theorem decrypt_congr (hname : owner.name = c.name) (hpool : owner.poolSize = c.poolSize) :
    p.decrypt d owner site decryptor text = p.decrypt d c site decryptor text := by
  rw [decrypt_eq, decrypt_eq, Pass.decryptWithin, Pass.decryptWithin, hname, hpool]

/-- A call that was decrypted, the decryptor that was executed and the text that it was given. -/
theorem decrypted_spec (ho : p.obfuscator.Direct) (hdescriptor : p.config.descriptor = Config.standard.descriptor)
    {m : Method} {t : Attempt} {literal : Nat} (h : t ∈ p.attempts d c m)
    (hfinding : t.finding = .decrypted literal plain) : ∃ text call decryptor,
      t.Calls c m literal text call ∧ Runs d call decryptor ∧
      p.decrypt d c t.site decryptor text = .ok (some plain) := by
  obtain ⟨b, a, i, n, hb, ha, hi, hattempt⟩ := exists_attempt h
  obtain ⟨call, decryptor, arguments, hcallee, harguments, hname, hsite, hfound⟩ := finding_of_attempt? hattempt
  rw [hfinding] at hfound
  obtain ⟨text, rfl, -, hdecrypt⟩ := finding_decrypted hfound
  obtain ⟨⟨kind, rfl⟩, hcall, hdecryptor⟩ := callee?_eq_some.1 hcallee
  rw [hdescriptor] at hcall
  have hparse : MethodDescriptor.parse call.descriptor =
      .ok ⟨[.object "java/lang/String"], .object "java/lang/String"⟩ := by
    rw [hcall]
    rfl
  obtain ⟨rfl, hliteral, -⟩ := literal_spec ha hi harguments hparse rfl
  refine ⟨text, call, decryptor, ⟨?_, hname, b, hb, hliteral, ?_⟩, ⟨hcall, ho d call decryptor hdecryptor⟩, hdecrypt⟩
  · rw [hsite]
  · rw [hsite]
    exact hi

/-- Of every call that a run decrypts, and whose plain text it records as it is shown: the call returns the
plain text if nothing runs when its class is set up, and whatever runs then, it returns what the pass would
find after that, each time up to the limits. -/
theorem decrypted_as_called (ho : p.obfuscator.Direct)
    (hdescriptor : p.config.descriptor = Config.standard.descriptor) {s : Summary} {cs : List ClassFile}
    {r : Pass.Run} (h : p.run s cs = .ok r) {attempt : Attempt} (hattempt : .call attempt ∈ r.notes) {literal : Nat}
    (hfinding : attempt.finding = .decrypted literal plain) :
    (∃ record ∈ r.records, record.site = attempt.site ∧ record.decryptor = attempt.decryptor ∧
      record.outcome = .decrypted plain.toStringLossy) ∧
    ∃ c ∈ cs, ∃ m ∈ c.methods, ∃ text call decryptor, attempt.Calls c m literal text call ∧
      Runs (.ofList cs) call decryptor ∧
      ∀ owner : ClassFile, owner.name = c.name → owner.poolSize = c.poolSize →
      ∀ fuel, (p.world (.ofList cs) attempt.site).fuel ≤ fuel →
        ((ClassDictionary.ofList cs).Idle call.owner →
          Gives plain (p.relay (.ofList cs) owner attempt.site fuel text call)) ∧
        ∀ found,
          (p.decryptCalled (.ofList cs) owner attempt.site fuel call decryptor text = .ok (some found) →
            Gives found (p.relay (.ofList cs) owner attempt.site fuel text call)) ∧
          (p.relay (.ofList cs) owner attempt.site fuel text call = .ok (some found) →
            Gives found (p.decryptCalled (.ofList cs) owner attempt.site fuel call decryptor text)) := by
  obtain ⟨c, hc, m, hm, hmem⟩ := mem_notes h hattempt
  obtain ⟨text, call, decryptor, hcalls, hruns, hdecrypt⟩ := decrypted_spec ho hdescriptor hmem hfinding
  have hrecord : attempt.record ∈ r.records :=
    List.mem_map_of_mem (List.mem_filterMap.2 ⟨.call attempt, hattempt, rfl⟩)
  have houtcome : attempt.record.outcome = .decrypted plain.toStringLossy := by
    rw [Attempt.record, hfinding]
    rfl
  refine ⟨⟨attempt.record, hrecord, rfl, rfl, houtcome⟩, c, hc, m, hm, text, call, decryptor, hcalls, hruns,
    fun owner hname hpool fuel hfuel => ⟨fun hidle => ?_,
      fun found => ⟨gives_of_decryptCalled hruns le_rfl, decryptCalled_of_relay hruns le_rfl⟩⟩⟩
  exact gives_of_idle hruns hidle hfuel ((decrypt_congr hname hpool).trans hdecrypt)

theorem decrypted_as_called_mirrored : ∃ r attempt,
    standardPass.run .empty [mirror, mirrored] = .ok r ∧ .call attempt ∈ r.notes ∧
    attempt.finding = .decrypted 0 [97] ∧ ∃ c ∈ [mirror, mirrored], ∃ m ∈ c.methods, ∃ text call,
      attempt.Calls c m 0 text call ∧
      Gives [97] (standardPass.relay (.ofList [mirror, mirrored]) c attempt.site
        (standardPass.world (.ofList [mirror, mirrored]) attempt.site).fuel text call) := by
  have hidle : ∀ name, (ClassDictionary.ofList [mirror, mirrored]).Idle name := by
    intro name above _ c hc
    have hall : ∀ c ∈ (ClassDictionary.ofList [mirror, mirrored]).classes, c.setup? = none := by decide +kernel
    exact hall c (ClassDictionary.name_of_get? hc).1
  have hnotes : ∃ r, standardPass.run .empty [mirror, mirrored] = .ok r ∧
      .call ⟨"Mirror.get", ⟨"Mirrored", "main", "()Ljava/lang/String;", 1⟩, .decrypted 0 [97]⟩ ∈ r.notes :=
    ⟨_, rfl, by decide +kernel⟩
  obtain ⟨r, hr, hattempt⟩ := hnotes
  obtain ⟨-, c, hc, m, hm, text, call, decryptor, hcalls, -, hgives⟩ :=
    decrypted_as_called Obfuscator.direct_allatori rfl hr hattempt rfl
  exact ⟨r, _, hr, hattempt, rfl, c, hc, m, hm, text, call, hcalls, (hgives c rfl rfl _ le_rfl).1 (hidle _)⟩

/-- A class with a text in a static field. -/
def key : ClassFile :=
  ⟨"Key", none, [], 0, 0, [⟨"text", "Ljava/lang/String;", 8, some (.string [119])⟩], []⟩

/-- A class that stores another text there when it is set up, and whose decryptor returns the text. -/
def late : ClassFile :=
  ⟨"Late", none, [], 0, 0, [],
    [⟨"<clinit>", "()V", 8, some ⟨#[⟨.ldc, .const (.string [114])⟩,
        ⟨.putStatic, .field ⟨"Key", "text", "Ljava/lang/String;"⟩⟩, ⟨.voidReturn, .none⟩], 0⟩⟩,
      ⟨"get", "(Ljava/lang/String;)Ljava/lang/String;", 8,
        some ⟨#[⟨.getStatic, .field ⟨"Key", "text", "Ljava/lang/String;"⟩⟩, ⟨.valueReturn .ref, .none⟩], 1⟩⟩]⟩

/-- A class that asks it for a text. -/
def asking : ClassFile :=
  ⟨"Asking", none, [], 0, 0, [], [⟨"main", "()Ljava/lang/String;", 8,
    some ⟨#[⟨.ldc, .const (.string [97])⟩,
      ⟨.invoke .static, .method ⟨"Late", "get", "(Ljava/lang/String;)Ljava/lang/String;"⟩⟩,
      ⟨.valueReturn .ref, .none⟩], 0⟩⟩]⟩

/-- The pass finds the text that the field had before the class was set up, and the call returns the other. -/
theorem decrypted_before_setUp : ∃ r attempt,
    standardPass.run .empty [key, late, asking] = .ok r ∧ .call attempt ∈ r.notes ∧
    attempt.site = ⟨"Asking", "main", "()Ljava/lang/String;", 1⟩ ∧ attempt.decryptor = "Late.get" ∧
    attempt.finding = .decrypted 0 [119] ∧
    standardPass.relay (.ofList [key, late, asking]) asking attempt.site
      (standardPass.world (.ofList [key, late, asking]) attempt.site).fuel [97]
      ⟨"Late", "get", "(Ljava/lang/String;)Ljava/lang/String;"⟩ = .ok (some [114]) := by
  have hnotes : ∃ r, standardPass.run .empty [key, late, asking] = .ok r ∧
      .call ⟨"Late.get", ⟨"Asking", "main", "()Ljava/lang/String;", 1⟩, .decrypted 0 [119]⟩ ∈ r.notes :=
    ⟨_, rfl, by decide +kernel⟩
  obtain ⟨r, hr, hattempt⟩ := hnotes
  exact ⟨r, _, hr, hattempt, rfl, rfl, rfl, by decide +kernel⟩

end Jvm.Decryption
