import Jvm.Proofs.Machine.Actions

/-!
# What an instruction is about to do

An instruction takes its operands, asks for a class to be set up, asks for a call, and only then takes
effect. `Step.intent` is the first part, which is about the operand stack alone; `Step.execute_eq` says that
nothing else happens, whoever sets up classes and answers calls. So what a run does between two
instructions, and in which order, can be told from the intents.

The library is looked at in the same way: whoever answers a call either has a value or names the method to
be executed or the call to be handed on (`Chain.invokeWithin_eq`).
-/

namespace Jvm

/-- What an instruction does once it has its operands. -/
inductive Intent where
  /-- Neither sets up a class nor calls a method. -/
  | plain
  | loadStatic (m : MemberRef)
  | storeStatic (m : MemberRef) (v : Value)
  | create (className : String)
  | call (c : Call) (returns : FieldType)

namespace Intent

/-- The class that is set up first. -/
def owner? : Intent → Option String
  | loadStatic m | storeStatic m _ => some m.owner
  | create className => some className
  | call c _ => if c.kind = .static then some c.member.owner else none
  | plain => none

def call? : Intent → Option Call
  | call c _ => some c
  | _ => none

def setUp (hooks : Hooks) (n : Intent) : Exec Unit :=
  match n.owner? with
  | some name => hooks.initClass name
  | none => pure ()

/-- Makes the call, if there is one. -/
def ask (hooks : Hooks) (n : Intent) : Exec Value :=
  match n.call? with
  | some c => hooks.invoke c
  | none => pure .void

end Intent

/-- Classes need no set-up, and nothing is called. -/
def Hooks.idle : Hooks := ⟨fun _ => pure .void, fun _ => pure ()⟩

theorem Value.asType_ok {t : FieldType} {operation : String} {v u : Value} (h : v.asType t operation = .ok u) :
    u = v ∧ v.fits t = true := by
  unfold asType at h
  split at h <;> cases h
  exact ⟨rfl, ‹_›⟩

theorem OperandStack.pop_ok {v : Value} {stack stack' : OperandStack} (h : pop stack = .ok v stack') :
    stack.values = v :: stack'.values := by
  unfold pop at h
  split at h
  · cases h
  · cases h
    exact ‹_›

theorem OperandStack.popReference_ok {name : String} {v : Value} {stack stack' : OperandStack}
    (h : popReference name stack = .ok v stack') : stack.values = v :: stack'.values := by
  rw [popReference, popAs, bind_apply] at h
  cases hp : pop stack with
  | error => rw [hp] at h; cases h
  | ok u t =>
    rw [hp] at h
    dsimp only at h
    rw [Value.asReference] at h
    by_cases href : u.isReferenceLike = true
    · rw [if_pos href] at h
      cases h
      exact pop_ok hp
    · rw [if_neg href] at h
      cases h

namespace Step

/-- A result or its fault, whatever the stack. -/
def ofStack {α : Type} : Except Fault α → StackM α
  | .ok a => pure a
  | .error f => throw f

/-- Takes the arguments of a call, and the receiver if there is one. -/
def callIntent (kind : InvokeKind) (name : String) (m : MemberRef) : StackM Intent := do
  let d ← ofStack (methodType m.descriptor)
  let arguments ← OperandStack.popN d.parameters.length
  if kind = .static then return .call (.onClass m arguments) d.returns
  else
    let receiver ← OperandStack.popReference name
    if receiver.isNull then throw .nullReference
    else return .call (.onObject kind m receiver arguments) d.returns

/-- Takes the value that is to be stored. -/
def storeIntent (name : String) (m : MemberRef) : StackM Intent := do
  let v ← OperandStack.pop
  let t ← ofStack (fieldType m.descriptor)
  return .storeStatic m (← ofStack (v.asType t name))

/-- An instruction without the member that it needs fails when it takes effect. -/
def onMember (i : Instruction) (f : MemberRef → StackM Intent) : StackM Intent :=
  match i.member? with
  | some m => f m
  | none => return .plain

/-- What the instruction is about to do, with the operands that it takes off the stack. -/
def intent (i : Instruction) : StackM Intent :=
  match i.opcode with
  | .getStatic => onMember i fun m => return .loadStatic m
  | .putStatic => onMember i (storeIntent i.opcode.mnemonic)
  | .invoke kind => onMember i (callIntent kind i.opcode.mnemonic)
  | .new =>
    match i.operand with
    | .classRef className => return .create className
    | _ => return .plain
  | _ => return .plain

/-- Puts the result of a call on the stack, if it has one. -/
def takeResult (returns : FieldType) (result : Value) : Step Unit := do
  if returns.isVoid then return () else push (← result.asType returns "invoke")

/-- What the instruction does when the class is set up and the call has been answered. -/
def effect (chain : Chain) (i : Instruction) (result : Value) : Intent → Step Next
  | .plain => execute chain .idle i
  | .loadStatic m => do
    push (← getStatic .idle m)
    return .advance
  | .storeStatic m v => do
    putStatic .idle m v
    return .advance
  | .create className => do
    push (← Exec.placeholder className)
    return .advance
  | .call _ returns => do
    takeResult returns result
    return .advance

variable {chain : Chain} {hooks : Hooks} {i : Instruction} {a : Activation} {w : World} {s : State}

theorem ofStack_apply {α : Type} (r : Except Fault α) (stack : OperandStack) : ofStack r stack = match r with
    | .ok x => .ok x stack
    | .error f => .error f stack := by
  cases r <;> rfl

/-- Sets up the class, makes the call and takes effect. -/
def fulfil (chain : Chain) (hooks : Hooks) (i : Instruction) (n : Intent) (a : Activation) :
    Exec (Next × Activation) := do
  n.setUp hooks
  let result ← n.ask hooks
  effect chain i result n a

theorem getStatic_apply (m : MemberRef) : getStatic hooks m w s = match hooks.initClass m.owner w s with
    | .ok _ s' => getStatic .idle m w s'
    | .error e s' => .error e s' := by
  rw [getStatic, Exec.bind_apply]
  cases hooks.initClass m.owner w s <;> rfl

theorem putStatic_apply (m : MemberRef) (v : Value) :
    putStatic hooks m v w s = match hooks.initClass m.owner w s with
      | .ok _ s' => putStatic .idle m v w s'
      | .error e s' => .error e s' := by
  rw [putStatic, Exec.bind_apply]
  cases hooks.initClass m.owner w s <;> rfl

/-- An instruction without calls and set-ups does the same whoever answers. -/
theorem execute_plain {hooks' : Hooks} (hs : i.opcode ≠ .getStatic) (hp : i.opcode ≠ .putStatic)
    (hn : i.opcode ≠ .new) (hi : ∀ kind, i.opcode ≠ .invoke kind) :
    execute chain hooks i = execute chain hooks' i := by
  have hsimple : executeSimple chain hooks i = executeSimple chain hooks' i := by
    unfold executeSimple
    split <;> dsimp only
    case h_31 => exact absurd ‹_› hs
    case h_32 => exact absurd ‹_› hp
    case h_35 => exact absurd ‹_› (hi _)
    case h_36 => exact absurd ‹_› hn
  unfold execute
  split <;> dsimp only
  rw [hsimple]

theorem fulfil_apply (n : Intent) : fulfil chain hooks i n a w s = match n.setUp hooks w s with
    | .error e t => .error e t
    | .ok _ t =>
      match n.ask hooks w t with
      | .error e u => .error e u
      | .ok result u => effect chain i result n a w u := by
  rw [fulfil, Exec.bind_apply]
  cases n.setUp hooks w s with
  | error => rfl
  | ok _ t =>
    dsimp only
    rw [Exec.bind_apply]
    cases n.ask hooks w t <;> rfl

theorem execute_getStatic {m : MemberRef} (hi : i.opcode = .getStatic) (hm : i.member? = some m) :
    execute chain hooks i a w s = fulfil chain hooks i (.loadStatic m) a w s := by
  simp only [execute, executeSimple, hi, member, hm, pure_bind, bind_assoc]
  rw [bind_apply, lift_apply, getStatic_apply, fulfil_apply]
  simp only [Intent.setUp, Intent.owner?]
  cases hooks.initClass m.owner w s with
  | error => rfl
  | ok _ t =>
    refine Eq.trans ?_ (bind_apply _ _ a w t).symm
    rw [lift_apply]

theorem execute_putStatic {m : MemberRef} (hi : i.opcode = .putStatic) (hm : i.member? = some m) :
    execute chain hooks i a w s = match intent i a.stack with
      | .error f _ => .error (.error (.emulation f)) s
      | .ok n stack => fulfil chain hooks i n { a with stack } w s := by
  simp only [execute, executeSimple, hi, member, hm, pure_bind, bind_assoc, intent, onMember, storeIntent]
  rw [bind_apply, liftStack_apply, OperandStack.bind_apply]
  cases OperandStack.pop a.stack with
  | error => rfl
  | ok v stack =>
    dsimp only
    rw [bind_apply, liftExcept_apply, OperandStack.bind_apply, ofStack_apply]
    cases fieldType m.descriptor with
    | error => rfl
    | ok t =>
      dsimp only
      rw [bind_apply, liftExcept_apply, OperandStack.bind_apply, ofStack_apply]
      cases v.asType t Opcode.putStatic.mnemonic with
      | error => rfl
      | ok v =>
        dsimp only
        rw [bind_apply, lift_apply, putStatic_apply]
        refine Eq.trans ?_ (fulfil_apply (.storeStatic m v)).symm
        simp only [Intent.setUp, Intent.owner?]
        cases hooks.initClass m.owner w s with
        | error => rfl
        | ok _ t =>
          refine Eq.trans ?_ (bind_apply _ _ _ w t).symm
          rw [lift_apply]

theorem execute_new {className : String} (hi : i.opcode = .new) (hc : i.operand = .classRef className) :
    execute chain hooks i a w s = fulfil chain hooks i (.create className) a w s := by
  simp only [execute, executeSimple, hi, Step.className, hc, pure_bind, bind_assoc]
  rw [bind_apply, lift_apply, fulfil_apply]
  simp only [Intent.setUp, Intent.owner?]
  cases hooks.initClass className w s <;> rfl

/-- A call on an object sets up no class. -/
theorem invoke_object {c : Call} {returns : FieldType} (hc : c.kind ≠ .static) :
    (liftM (hooks.invoke c) >>= fun result => takeResult returns result >>= fun _ => pure .advance : Step Next) a w s =
      fulfil chain hooks i (.call c returns) a w s := by
  rw [bind_apply, lift_apply, fulfil_apply]
  simp only [Intent.setUp, Intent.owner?, if_neg hc, Intent.ask, Intent.call?, Exec.pure_apply]
  cases hooks.invoke c w s <;> rfl

theorem invoke_class {c : Call} {returns : FieldType} (hc : c.kind = .static) :
    (liftM (hooks.initClass c.member.owner) >>= fun _ => liftM (hooks.invoke c) >>= fun result =>
        takeResult returns result >>= fun _ => pure .advance : Step Next) a w s =
      fulfil chain hooks i (.call c returns) a w s := by
  rw [bind_apply, lift_apply, fulfil_apply]
  simp only [Intent.setUp, Intent.owner?, if_pos hc, Intent.ask, Intent.call?]
  cases hooks.initClass c.member.owner w s with
  | error => rfl
  | ok _ t =>
    dsimp only
    rw [bind_apply, lift_apply]
    cases hooks.invoke c w t <;> rfl

theorem execute_invoke {kind : InvokeKind} {m : MemberRef} (hi : i.opcode = .invoke kind)
    (hm : i.member? = some m) :
    execute chain hooks i a w s = match intent i a.stack with
      | .error f _ => .error (.error (.emulation f)) s
      | .ok n stack => fulfil chain hooks i n { a with stack } w s := by
  have hresult : ∀ (t : FieldType) (v : Value),
      (if t.isVoid = true then pure () else do push (← v.asType t "invoke") : Step Unit) = takeResult t v :=
    fun _ _ => rfl
  simp only [execute, executeSimple, hi, invoke, member, hm, pure_bind, bind_assoc, intent, onMember, callIntent,
    hresult]
  rw [bind_apply, liftExcept_apply, OperandStack.bind_apply, ofStack_apply]
  cases methodType m.descriptor with
  | error => rfl
  | ok d =>
    dsimp only
    rw [bind_apply, liftStack_apply, OperandStack.bind_apply]
    cases OperandStack.popN d.parameters.length a.stack with
    | error => rfl
    | ok arguments stack =>
      dsimp only
      by_cases hk : kind = .static
      · rw [if_pos hk, if_pos hk]
        simp only [bind_assoc]
        exact invoke_class (c := .onClass m arguments) rfl
      · rw [if_neg hk, if_neg hk]
        simp only [bind_assoc]
        rw [bind_apply, liftStack_apply, OperandStack.bind_apply]
        cases OperandStack.popReference (Opcode.invoke kind).mnemonic stack with
        | error => rfl
        | ok receiver stack =>
          dsimp only
          by_cases hnull : receiver.isNull = true
          · rw [if_pos hnull, if_pos hnull]
            rfl
          · rw [if_neg hnull, if_neg hnull, bind_assoc]
            exact invoke_object (c := .onObject kind m receiver arguments) hk

/-- The instruction neither sets up a class nor calls a method, if only for its operand. -/
structure Alone (i : Instruction) : Prop where
  member : i.opcode = .getStatic ∨ i.opcode = .putStatic ∨ (∃ kind, i.opcode = .invoke kind) → i.member? = none
  className : i.opcode = .new → ∀ className, i.operand ≠ .classRef className

/-- Where the operand is not the one that the opcode needs, the instruction fails whoever answers. -/
theorem execute_badOperand {hooks' : Hooks} (hp : Alone i) : execute chain hooks i = execute chain hooks' i := by
  by_cases hmember : i.opcode = .getStatic ∨ i.opcode = .putStatic ∨ ∃ kind, i.opcode = .invoke kind
  · have hm := hp.member hmember
    obtain hi | hi | ⟨kind, hi⟩ := hmember <;> simp only [execute, executeSimple, invoke, hi, member, hm] <;> rfl
  · simp only [not_or, not_exists] at hmember
    by_cases hnew : i.opcode = .new
    · simp only [execute, executeSimple, hnew, Step.className]
      split
      · exact absurd ‹_› (hp.className hnew _)
      · rfl
    · exact execute_plain hmember.1 hmember.2.1 hnew hmember.2.2

/-- An instruction takes its operands, sets up a class, makes a call and takes effect. -/
theorem execute_eq : execute chain hooks i a w s = match intent i a.stack with
    | .error f _ => .error (.error (.emulation f)) s
    | .ok n stack => fulfil chain hooks i n { a with stack } w s := by
  have hplain (hn : intent i = pure .plain) (hp : Alone i) :
      execute chain hooks i a w s = match intent i a.stack with
        | .error f _ => .error (.error (.emulation f)) s
        | .ok n stack => fulfil chain hooks i n { a with stack } w s := by
    have hx : execute chain hooks i = execute chain .idle i := execute_badOperand hp
    rw [hn, hx]
    rfl
  by_cases hmember : i.opcode = .getStatic ∨ i.opcode = .putStatic ∨ ∃ kind, i.opcode = .invoke kind
  · cases hm : i.member? with
    | some m =>
      obtain hi | hi | ⟨kind, hi⟩ := hmember
      · rw [execute_getStatic hi hm, intent, hi, onMember, hm]
        rfl
      · exact execute_putStatic hi hm
      · exact execute_invoke hi hm
    | none =>
      refine hplain ?_ ⟨fun _ => hm, fun hnew => ?_⟩
      · obtain hi | hi | ⟨kind, hi⟩ := hmember <;> simp only [intent, hi, onMember, hm]
      · obtain hi | hi | ⟨kind, hi⟩ := hmember <;> rw [hi] at hnew <;> cases hnew
  by_cases hnew : i.opcode = .new
  · by_cases hc : ∃ className, i.operand = .classRef className
    · obtain ⟨className, hc⟩ := hc
      rw [execute_new hnew hc, intent, hnew, hc]
      rfl
    · refine hplain ?_ ⟨fun h => absurd h hmember, fun _ className hop => hc ⟨className, hop⟩⟩
      rw [intent, hnew]
      dsimp only
      split
      · exact absurd ⟨_, ‹_›⟩ hc
      · rfl
  · refine hplain ?_ ⟨fun h => absurd h hmember, fun h => absurd h hnew⟩
    unfold intent
    split
    · exact absurd (.inl ‹_›) hmember
    · exact absurd (.inr (.inl ‹_›)) hmember
    · exact absurd (.inr (.inr ⟨_, ‹_›⟩)) hmember
    · exact absurd ‹_› hnew
    · rfl

/-! ### What an intent tells -/

theorem bindStack_ok {α β : Type} {m : StackM α} {f : α → StackM β} {b : β} {stack stack' : OperandStack}
    (h : (m >>= f) stack = .ok b stack') : ∃ x t, m stack = .ok x t ∧ f x t = .ok b stack' := by
  rw [OperandStack.bind_apply] at h
  split at h
  · exact ⟨_, _, ‹_›, h⟩
  · cases h

theorem ofStack_ok {α : Type} {r : Except Fault α} {x : α} {stack stack' : OperandStack}
    (h : ofStack r stack = .ok x stack') : r = .ok x ∧ stack' = stack := by
  cases r with
  | error => cases h
  | ok y => cases h; exact ⟨rfl, rfl⟩

/-- What an intent tells of the instruction that has it and of its operands. -/
def Intended (i : Instruction) (stack stack' : OperandStack) : Intent → Prop
  | .plain => Alone i ∧ stack' = stack
  | .loadStatic m => i.opcode = .getStatic ∧ i.member? = some m ∧ stack' = stack
  | .storeStatic m v => i.opcode = .putStatic ∧ i.member? = some m ∧ stack.values = v :: stack'.values ∧
    ∃ t, fieldType m.descriptor = .ok t ∧ v.fits t = true
  | .create className => i.opcode = .new ∧ i.operand = .classRef className ∧ stack' = stack
  | .call c _ => ∃ kind, i.opcode = .invoke kind ∧ i.member? = some c.member ∧ c.kind = kind

theorem intended {n : Intent} {stack stack' : OperandStack} (h : intent i stack = .ok n stack') :
    Intended i stack stack' n := by
  have hmember {f : MemberRef → StackM Intent} (h : onMember i f stack = .ok n stack') :
      (∃ m, i.member? = some m ∧ f m stack = .ok n stack') ∨
        n = .plain ∧ i.member? = none ∧ stack' = stack := by
    cases hm : i.member? with
    | some m =>
      rw [onMember, hm] at h
      exact .inl ⟨m, rfl, h⟩
    | none =>
      rw [onMember, hm] at h
      cases h
      exact .inr ⟨rfl, rfl, rfl⟩
  obtain ⟨f, hf⟩ : ∃ f, intent i = f := ⟨_, rfl⟩
  rw [hf] at h
  unfold intent at hf
  split at hf
  case h_1 hi =>
    subst hf
    obtain ⟨m, hm, h⟩ | ⟨rfl, hm, rfl⟩ := hmember h
    · cases h
      exact ⟨hi, hm, rfl⟩
    · exact ⟨⟨fun _ => hm, fun hnew => by cases hi.symm.trans hnew⟩, rfl⟩
  case h_2 hi =>
    subst hf
    obtain ⟨m, hm, h⟩ | ⟨rfl, hm, rfl⟩ := hmember h
    · obtain ⟨v, s, hpop, h₁⟩ := bindStack_ok h
      obtain ⟨t, s', ht, h₂⟩ := bindStack_ok h₁
      obtain ⟨htype, rfl⟩ := ofStack_ok ht
      obtain ⟨u, s'', hu, h₃⟩ := bindStack_ok h₂
      obtain ⟨hcast, rfl⟩ := ofStack_ok hu
      obtain ⟨rfl, hfits⟩ := Value.asType_ok hcast
      cases h₃
      exact ⟨hi, hm, OperandStack.pop_ok hpop, t, htype, hfits⟩
    · exact ⟨⟨fun _ => hm, fun hnew => by cases hi.symm.trans hnew⟩, rfl⟩
  case h_3 kind hi =>
    subst hf
    obtain ⟨m, hm, h⟩ | ⟨rfl, hm, rfl⟩ := hmember h
    · obtain ⟨d, s, hd, h⟩ := bindStack_ok h
      obtain ⟨arguments, s', harguments, h⟩ := bindStack_ok h
      split at h
      · cases h
        exact ⟨kind, hi, hm, Eq.symm ‹_›⟩
      · obtain ⟨receiver, s'', hreceiver, h⟩ := bindStack_ok h
        split at h <;> cases h
        exact ⟨kind, hi, hm, rfl⟩
    · exact ⟨⟨fun _ => hm, fun hnew => by cases hi.symm.trans hnew⟩, rfl⟩
  case h_4 hi =>
    split at hf <;> subst hf <;> cases h
    · exact ⟨hi, ‹_›, rfl⟩
    · rename_i hc
      refine ⟨⟨fun hmember => ?_, fun _ => hc⟩, rfl⟩
      obtain h | h | ⟨kind, h⟩ := hmember <;> cases hi.symm.trans h
  case h_5 hs hp hi hn =>
    subst hf
    cases h
    refine ⟨⟨fun hmember => ?_, fun hnew => absurd hnew hn⟩, rfl⟩
    obtain h | h | ⟨kind, h⟩ := hmember
    · exact absurd h hs
    · exact absurd h hp
    · exact absurd h (hi kind)

end Step

/-! ### Calls -/

/-- How a call is answered: by a value, by executing a method, or by another call. -/
inductive Answer where
  | value (v : Value)
  | execute (owner : ClassFile) (m : Method) (arguments : List Value) (receiver : Option Value)
  | handOn (c : Call)

/-- Brings the answer about. -/
def Answer.fulfil (execute : ClassFile → Method → List Value → Option Value → Exec Value)
    (handOn : Call → Exec Value) : Answer → Exec Value
  | value v => pure v
  | .execute owner m arguments receiver => execute owner m arguments receiver
  | .handOn c => do
    match ← handOn c with
    | .void => return .null
    | v => return v

/-- How a provider answers a call, and what it does to the objects before. -/
def Provider.answer (p : Provider) (c : Call) : Exec Answer :=
  match p with
  | native catalog =>
    match catalog.find? c.member.owner c.member.signature with
    | none => Exec.fail c.unresolved
    | some m => do
      match ← m.run c with
      | .value v => return .value v
      | .forward next => return .handOn next
  | comparison => Exec.fail c.unresolved
  | mapped => do
    let d := (← read).program
    match d.target? (← get).heap c with
    | none => Exec.fail c.unresolved
    | some (owner, index) =>
      match owner.methods[index]? with
      | none => Exec.fail c.unresolved
      | some m =>
        if m.isStatic then return .execute owner m c.arguments none
        else
          let this ← c.this
          if this.isNull then Exec.fail .nullReference
          else
            if c.isConstructor then
              let constructed ← Exec.readHeap (·.isConstructed this)
              if !constructed then Exec.construct this owner.name (.record [])
            return .execute owner m c.arguments (some this)

/-- How the first provider that can answers a call. -/
def Chain.answer (chain : Chain) (c : Call) : Exec Answer := do
  let d := (← read).program
  match chain.provider? d (← get).heap c with
  | some p => p.answer c
  | none => Exec.fail c.unresolved

variable {execute : ClassFile → Method → List Value → Option Value → Exec Value} {handOn : Call → Exec Value}

theorem Provider.invoke_eq (p : Provider) (c : Call) :
    p.invoke execute handOn c = p.answer c >>= Answer.fulfil execute handOn := by
  cases p with
  | native catalog =>
    simp only [invoke, answer]
    cases catalog.find? c.member.owner c.member.signature with
    | none => rfl
    | some m =>
      simp only [bind_assoc]
      refine bind_congr fun reply => ?_
      cases reply <;> rfl
  | comparison => rfl
  | mapped =>
    simp only [invoke, answer, bind_assoc]
    refine bind_congr fun w => bind_congr fun s => ?_
    cases w.program.target? s.heap c with
    | none => rfl
    | some p =>
      dsimp only
      cases p.1.methods[p.2]? with
      | none => rfl
      | some m =>
        dsimp only
        split
        · rfl
        rw [bind_assoc]
        refine bind_congr fun this => ?_
        split
        · rfl
        split
        · rw [bind_assoc]
          refine bind_congr fun constructed => ?_
          split
          · rw [bind_assoc]
            rfl
          · rfl
        · rfl

theorem Chain.answer_apply (chain : Chain) (c : Call) (w : World) (s : State) :
    chain.answer c w s = match chain.provider? w.program s.heap c with
      | some p => p.answer c w s
      | none => .error (.error (.emulation c.unresolved)) s := by
  rw [answer, Exec.bind_apply, Exec.read_apply]
  dsimp only
  rw [Exec.bind_apply, Exec.get_apply]
  dsimp only
  cases chain.provider? w.program s.heap c <;> rfl

/-- To find out how a call is answered and to bring that about is to answer it. -/
theorem Chain.resolveWith_eq (chain : Chain) (c : Call) : (do
    match ← chain.resolveWith execute handOn c with
    | some v => return v
    | none => Exec.fail c.unresolved) = chain.answer c >>= Answer.fulfil execute handOn := by
  simp only [resolveWith, answer, bind_assoc]
  refine bind_congr fun w => bind_congr fun s => ?_
  cases chain.provider? w.program s.heap c with
  | none => rfl
  | some p =>
    dsimp only
    rw [Provider.invoke_eq]
    simp only [map_eq_pure_bind, bind_assoc, pure_bind, bind_pure]

theorem Chain.invokeWithin_eq (chain : Chain) (fuel : Nat) (c : Call) : invokeWithin chain (fuel + 1) c =
    chain.answer c >>= Answer.fulfil (executeWithin chain fuel) (invokeWithin chain fuel) := by
  rw [invokeWithin]
  exact resolveWith_eq ..

end Jvm
