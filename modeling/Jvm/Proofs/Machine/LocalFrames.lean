import Jvm.Proofs.Descriptor
import Jvm.Proofs.Machine.Issued
import Jvm.Proofs.Machine.LocalSlots
import Jvm.Proofs.Machine.Places

/-!
# Local variables are never missing

A body has as many local variables as its instructions name, however it was built (`MethodBody.Built`), and a method
that is entered gets room for its receiver and its arguments besides (`Activation.roomy_enter`). So nothing that a
running method does by itself misses a local variable (`Chain.execute_within_locals`); it can only pass on such a fault
of a class that it sets up or of a method that it calls.
-/

namespace Jvm

/-! ### Bodies -/

theorem Instruction.requiredSlots_eq (i : Instruction) : i.requiredSlots = min i.slotEnd 0xffff := by
  obtain ⟨opcode, operand⟩ := i
  cases operand <;> rfl

theorem Instruction.slotEnd_retarget (f : Nat → Nat) (i : Instruction) : (i.retarget f).slotEnd = i.slotEnd := by
  obtain ⟨opcode, operand⟩ := i
  cases operand <;> rfl

namespace MethodBody

variable {b b' : MethodBody} {i : Instruction}

/-- The bodies that can be built from instructions, also by taking some out again. -/
inductive Built : MethodBody → Prop where
  | ofInstructions (code : Array Instruction) : Built (ofInstructions code)
  | withMaxLocals (code : Array Instruction) (slots : UInt16) : Built (withMaxLocals code slots)
  | remove {b b' : MethodBody} {index : Nat} {i : Instruction} :
      Built b → b.remove index = .ok (i, b') → Built b'

theorem foldl_max_le_iff {α : Type} (f : α → Nat) (xs : List α) (m k : Nat) :
    xs.foldl (fun n x => max n (f x)) m ≤ k ↔ m ≤ k ∧ ∀ x ∈ xs, f x ≤ k := by
  induction xs generalizing m with
  | nil => simp
  | cons x xs ih => simp only [List.foldl_cons, ih, Nat.max_le, List.forall_mem_cons, and_assoc]

theorem requiredLocals_le_iff {code : Array Instruction} {k : Nat} :
    requiredLocals code ≤ k ↔ ∀ i ∈ code, i.requiredSlots ≤ k := by
  rw [requiredLocals, ← Array.foldl_toList, foldl_max_le_iff]
  simp

theorem requiredSlots_le_withMaxLocals {code : Array Instruction} (slots : UInt16) (hi : i ∈ code) :
    i.requiredSlots ≤ (withMaxLocals code slots).maxLocals.toNat := by
  have hrequired : i.requiredSlots ≤ requiredLocals code := requiredLocals_le_iff.1 (Nat.le_refl _) i hi
  have hbound : requiredLocals code ≤ 0xffff := requiredLocals_le_iff.2 fun j _ => by
    rw [Instruction.requiredSlots_eq]
    exact Nat.min_le_right _ _
  have hslots := slots.toNat_lt
  have htoNat : (withMaxLocals code slots).maxLocals.toNat = max slots.toNat (requiredLocals code) := by
    change (max slots.toNat (requiredLocals code)) % 65536 = _
    rw [Nat.mod_eq_of_lt (by omega)]
  rw [htoNat]
  omega

/-- Every body has the local variables that its instructions name, up to the largest number. -/
theorem Built.requiredSlots_le (h : b.Built) (hi : i ∈ b.instructions) : i.requiredSlots ≤ b.maxLocals.toNat := by
  induction h generalizing i with
  | ofInstructions code => exact requiredSlots_le_withMaxLocals 0 hi
  | withMaxLocals code slots => exact requiredSlots_le_withMaxLocals slots hi
  | @remove b b' index _ hb hremove ih =>
    unfold MethodBody.remove at hremove
    split at hremove
    · cases hremove
    · cases hremove
      obtain ⟨j, hj, rfl⟩ := Array.mem_map.1 hi
      rw [Instruction.requiredSlots_eq, Instruction.slotEnd_retarget, ← Instruction.requiredSlots_eq]
      rw [Array.eraseIdxIfInBounds_eq] at hj
      split at hj
      · exact ih (Array.mem_of_mem_eraseIdx hj)
      · exact ih hj

end MethodBody

/-! ### Where a method is entered -/

/-- A value has the words that its type says. -/
theorem Value.words_of_fits {v : Value} {t : FieldType} (h : v.fits t = true) (ht : t.isVoid = false) :
    v.width.words = t.slots := by
  rw [Step.width_of_fits h ht]
  cases t <;> first | rfl | cases ht

theorem FieldType.IsValue.isVoid {t : FieldType} (h : t.IsValue) : t.isVoid = false := by
  cases t <;> first | rfl | exact h.elim

namespace Activation

variable {m : Method} {d : MethodDescriptor} {arguments : List Value}

/-- The words of some arguments, by their types. -/
def slots (arguments : List (Value × FieldType)) : Nat := arguments.foldr (fun p n => p.2.slots + n) 0

theorem slots_zip_le (arguments : List Value) (parameters : List FieldType) :
    slots (arguments.zip parameters) ≤ parameters.foldr (fun p n => p.slots + n) 0 := by
  induction arguments generalizing parameters with
  | nil => exact Nat.zero_le _
  | cons v arguments ih =>
    cases parameters with
    | nil => exact Nat.le_refl _
    | cons t parameters => exact Nat.add_le_add_left (ih parameters) _

/-- The arguments find room where there are as many variables as they have words. -/
theorem roomy_storeArguments {arguments : List (Value × FieldType)} {index : Nat} {l : Locals}
    (htypes : ∀ p ∈ arguments, p.2.IsValue) (hroom : index + slots arguments ≤ l.size) :
    Roomy (·.size = l.size) (storeArguments arguments index l) := by
  induction arguments generalizing index l with
  | nil => rfl
  | cons p rest ih =>
    obtain ⟨v, t⟩ := p
    have hsum : slots ((v, t) :: rest) = t.slots + slots rest := rfl
    refine Roomy.bind (.of_aloof (v.aloof_asType "argument" t) fun u hu => Value.asType_ok hu) ?_
    rintro u ⟨rfl, hfits⟩
    have hwords : u.width.words = t.slots := Value.words_of_fits hfits (htypes _ List.mem_cons_self).isVoid
    refine (Locals.roomy_store (by rw [Locals.HasRoom]; omega)).bind fun l' hl' => ?_
    rw [← hl']
    exact ih (fun q hq => htypes q (List.mem_cons_of_mem _ hq)) (by omega)

/-- A method that is entered has the local variables of its body, and enough for its receiver and arguments. -/
theorem roomy_enter (hd : Step.methodType m.descriptor = .ok d) (limit : Nat) (arguments : List Value)
    (receiver : Option Value) :
    Roomy (fun a => ∀ b, m.body = some b → b.maxLocals.toNat ≤ a.locals.size)
      (enter limit m d arguments receiver) := by
  have hvalid : d.IsValid := (MethodDescriptor.parse_eq_ok.1 (Step.parse_of_methodType hd)).1
  have htypes : ∀ p ∈ arguments.zip d.parameters, p.2.IsValue :=
    fun p hp => hvalid.parameters _ (List.of_mem_zip hp).2
  have hslots : slots (arguments.zip d.parameters) ≤ d.argumentSlots := slots_zip_le _ _
  obtain ⟨declared, hdeclared⟩ : ∃ n, (m.body.map (·.maxLocals.toNat)).getD 0 = n := ⟨_, rfl⟩
  -- the receiver takes up one variable, and the arguments follow
  have hrest : ∀ (l : Locals) (first : Nat), declared ≤ l.size → first + d.argumentSlots ≤ l.size →
      Roomy (fun a => ∀ b, m.body = some b → b.maxLocals.toNat ≤ a.locals.size) (do
        let locals ← storeArguments (arguments.zip d.parameters) first l
        return { stack := OperandStack.empty limit, locals, returns := d.returns } : Except Fault Activation) := by
    intro l first hl hfirst
    refine (roomy_storeArguments htypes (by omega)).bind fun l' hl' => ?_
    intro b hb
    rw [hb] at hdeclared
    change b.maxLocals.toNat ≤ l'.size
    change b.maxLocals.toNat = declared at hdeclared
    omega
  have hcount : ∀ n, (Locals.ofCount n).size = n := fun n => Array.size_replicate
  unfold enter
  rw [hdeclared]
  dsimp only
  split
  · refine hrest _ 0 ?_ ?_ <;> rw [hcount] <;> omega
  split
  · exact rfl
  · rename_i v
    refine Roomy.bind (.of_aloof (v.aloof_asReference "receiver") fun u hu => Value.eq_of_asReference hu) ?_
    rintro u ⟨rfl, href⟩
    have hroom : (Locals.ofCount (max declared (d.argumentSlots + 1))).HasRoom 0 u := by
      rw [Locals.HasRoom, hcount, Step.width_of_reference href]
      exact Nat.le_trans (Nat.le_add_left _ _) (Nat.le_max_right _ _)
    refine (Locals.roomy_store hroom).bind fun l hl => ?_
    rw [hcount] at hl
    exact hrest l 1 (by omega) (by omega)

end Activation

/-! ### Along a run -/

namespace Intent

/-- The class set-up or the call that is asked for ends in this failure. -/
def Ends (hooks : Hooks) (asked : Intent) (w : World) (s : State) (e : Stop) (s' : State) : Prop :=
  asked.setUp hooks w s = .error e s' ∨ ∃ t, asked.setUp hooks w s = .ok () t ∧ asked.ask hooks w t = .error e s'

end Intent

namespace Chain

variable {chain : Chain} {hooks : Hooks} {i : Instruction} {code : Array Instruction} {w : World} {s s' : State}
  {a a' : Activation} {e : Stop} {owner : ClassFile} {m : Method} {b : MethodBody} {arguments : List Value}
  {receiver : Option Value} {fuel n : Nat} {q r : Point} {next : Next}

/-- At this place the instruction sets up a class or calls a method, and that ends in this failure. -/
def Point.Passes (chain : Chain) (w : World) (code : Array Instruction) (q : Point) (e : Stop) (s' : State) : Prop :=
  ∃ fuel i asked stack, q.fuel = fuel + 1 ∧ code[q.pc]? = some i ∧
    Step.intent i q.activation.stack = .ok asked stack ∧
    asked.Ends (chain.hooks fuel) w { q.state with steps := q.state.steps + 1 } e s'

/-- Where there are the local variables that it names, an instruction that has its operands keeps their number, and it
misses one only if what it asks for does. -/
theorem framed_fulfil (hn : i.slotEnd ≤ n) (ha : a.locals.size = n) (asked : Intent) :
    (∀ p t, Step.fulfil chain hooks i asked a w s = .ok p t → p.2.locals.size = n) ∧
      ∀ e t, Step.fulfil chain hooks i asked a w s = .error e t → e.isLocal = true → asked.Ends hooks w s e t := by
  rw [Step.fulfil_apply]
  cases hsetUp : asked.setUp hooks w s with
  | error e t => exact ⟨nofun, fun e' t' h _ => by cases h; exact .inl hsetUp⟩
  | ok _ t =>
    dsimp only
    cases hask : asked.ask hooks w t with
    | error e u => exact ⟨nofun, fun e' t' h _ => by cases h; exact .inr ⟨t, hsetUp, hask⟩⟩
    | ok result u =>
      have hframed := Step.framed_effect chain hn result asked a w u ha
      refine ⟨fun p t' h => ?_, fun e t' h he => ?_⟩
      · dsimp only at h
        rw [h] at hframed
        exact hframed
      · dsimp only at h
        rw [h] at hframed
        cases hframed.symm.trans he

theorem size_perform (hn : i.slotEnd ≤ n) (ha : a.locals.size = n)
    (h : chain.perform hooks i a w s = .ok (next, a') s') : a'.locals.size = n := by
  have hexecute := perform_ok h
  rw [Step.execute_eq] at hexecute
  cases hintent : Step.intent i a.stack with
  | error f stack =>
    simp only [hintent] at hexecute
    cases hexecute
  | ok asked stack =>
    simp only [hintent] at hexecute
    exact (framed_fulfil (a := { a with stack }) hn ha asked).1 _ _ hexecute

theorem ends_of_execute (hn : i.slotEnd ≤ n) (ha : a.locals.size = n)
    (h : Step.execute chain hooks i a w s = .error e s') (he : e.isLocal = true) :
    ∃ asked stack, Step.intent i a.stack = .ok asked stack ∧ asked.Ends hooks w s e s' := by
  rw [Step.execute_eq] at h
  cases hintent : Step.intent i a.stack with
  | error f stack =>
    simp only [hintent] at h
    cases h
    cases (Step.detached_intent i _ _ _ hintent).symm.trans he
  | ok asked stack =>
    simp only [hintent] at h
    exact ⟨asked, stack, rfl, (framed_fulfil (a := { a with stack }) hn ha asked).2 _ _ h he⟩

theorem size_moves (hcode : ∀ i ∈ code, i.slotEnd ≤ q.activation.locals.size) (h : chain.Moves w code q r) :
    r.activation.locals.size = q.activation.locals.size := by
  cases h with
  | advance hi hx => exact size_perform (hcode _ (Array.mem_of_getElem? hi)) rfl hx
  | jump hi hx _ => exact size_perform (hcode _ (Array.mem_of_getElem? hi)) rfl hx

/-- At every place there are the local variables that the body asks for. -/
theorem size_visits (hcode : ∀ i ∈ b.instructions, i.slotEnd ≤ b.maxLocals.toNat) (hm : m.body = some b)
    (hq : Visits chain w owner m b arguments receiver fuel s q) :
    b.maxLocals.toNat ≤ q.activation.locals.size := by
  induction hq with
  | enter hd _ _ henter =>
    have hroomy := Activation.roomy_enter hd w.limits.stackDepth arguments receiver
    rw [henter] at hroomy
    exact hroomy b hm
  | move _ hmove ih => rwa [size_moves (fun i hi => Nat.le_trans (hcode i hi) ih) hmove]

/-- A run that misses a local variable has come to a place that passes this on. -/
theorem passes_run {P : Point → Prop} (hcode : ∀ i ∈ code, i.slotEnd ≤ n)
    (hsize : ∀ q, P q → n ≤ q.activation.locals.size) (hmoves : ∀ q r, P q → chain.Moves w code q r → P r)
    {pc : Nat} (hq : P ⟨fuel, pc, a, s⟩) (h : chain.run owner m code fuel pc a w s = .error e s')
    (he : e.isLocal = true) : ∃ q, P q ∧ Point.Passes chain w code q e s' := by
  induction fuel generalizing pc a s with
  | zero =>
    rw [Chain.run] at h
    cases h
    cases he
  | succ fuel ih =>
    rw [run_apply] at h
    cases hi : code[pc]? with
    | none =>
      simp only [hi] at h
      cases h
      cases he
    | some i =>
      simp only [hi] at h
      have hn : i.slotEnd ≤ a.locals.size := Nat.le_trans (hcode i (Array.mem_of_getElem? hi)) (hsize _ hq)
      cases hx : chain.perform (chain.hooks fuel) i a w s with
      | error e' t =>
        simp only [hx] at h
        cases h
        rw [perform_apply] at hx
        split at hx
        · cases hx
          cases he
        obtain ⟨asked, stack, hintent, hends⟩ := ends_of_execute hn rfl hx he
        exact ⟨_, hq, fuel, i, asked, stack, rfl, hi, hintent, hends⟩
      | ok p t =>
        obtain ⟨next, a'⟩ := p
        simp only [hx] at h
        cases next with
        | advance => exact ih (hmoves _ _ hq (.advance hi hx)) h
        | finish v => cases h
        | jump target =>
          dsimp only at h
          split at h
          · exact ih (hmoves _ _ hq (.jump hi hx ‹_›)) h
          · cases h
            cases he

end Chain

/-- The instruction loads, stores or increments a local variable. -/
def Instruction.IsLocal (i : Instruction) : Prop :=
  (∃ t, i.opcode = .load t) ∨ (∃ t, i.opcode = .store t) ∨ i.opcode = .iinc

theorem Instruction.IsLocal.intent {i : Instruction} (h : i.IsLocal) : Step.intent i = pure .plain := by
  rcases h with ⟨t, h⟩ | ⟨t, h⟩ | h <;> rw [Step.intent, h]

/-- Where the instructions of a body name no local variable beyond the largest number, an execution misses none, when
it stores the receiver and the arguments or later; it ends like this only if a class that it sets up or a method that
it calls does. -/
theorem Chain.execute_within_locals {chain : Chain} {w : World} {s : State} {owner : ClassFile} {m : Method}
    {b : MethodBody} {arguments : List Value} {receiver : Option Value} {fuel : Nat} (hb : b.Built)
    (hslots : ∀ i ∈ b.instructions, i.slotEnd ≤ 0xffff) (hm : m.body = some b) :
    (∀ limit d f, Step.methodType m.descriptor = .ok d →
      Activation.enter limit m d arguments receiver = .error f → f.isLocal = false) ∧
    (∀ q i, Visits chain w owner m b arguments receiver fuel s q → b.instructions[q.pc]? = some i → i.IsLocal →
      ∀ hooks e t, Step.execute chain hooks i q.activation w q.state = .error e t → e.isLocal = false) ∧
    ∀ e s', chain.executeWithin fuel owner m arguments receiver w s = .error e s' → e.isLocal = true →
      ∃ q t, Visits chain w owner m b arguments receiver fuel s q ∧ Point.Passes chain w b.instructions q e t := by
  have hcode : ∀ i ∈ b.instructions, i.slotEnd ≤ b.maxLocals.toNat := by
    intro i hi
    have hrequired := hb.requiredSlots_le hi
    rwa [i.requiredSlots_eq, Nat.min_eq_left (hslots i hi)] at hrequired
  have hsize (q : Point) (hq : Visits chain w owner m b arguments receiver fuel s q) :
      b.maxLocals.toNat ≤ q.activation.locals.size := size_visits hcode hm hq
  refine ⟨fun limit d f hd henter => ?_, fun q i hq hi hlocal hooks e t hx => ?_, fun e s' h he => ?_⟩
  · have hroomy := Activation.roomy_enter hd limit arguments receiver
    rw [henter] at hroomy
    exact hroomy
  · cases he : e.isLocal with
    | false => rfl
    | true =>
      have hn := Nat.le_trans (hcode i (Array.mem_of_getElem? hi)) (hsize q hq)
      obtain ⟨asked, stack, hintent, hends⟩ := ends_of_execute hn rfl hx he
      rw [hlocal.intent] at hintent
      cases hintent
      obtain hsetUp | ⟨_, _, hask⟩ := hends
      · cases hsetUp
      · cases hask
  · obtain ⟨d, f, hd, -, henter, rfl⟩ | ⟨fuel', a, t, u, hvisit, hrun⟩ :=
      exists_run_of_isFrame hm h (Stop.isFrame_of_isLocal he)
    · have hroomy := Activation.roomy_enter hd w.limits.stackDepth arguments receiver
      rw [henter] at hroomy
      cases hroomy.symm.trans he
    · obtain ⟨q, hq, hpasses⟩ := passes_run hcode hsize (fun _ _ hq hmove => .move hq hmove) hvisit hrun he
      exact ⟨q, u, hq, hpasses⟩

/-- A `long` that is put into another local variable before it is returned. -/
def shelved : MethodBody := .ofInstructions
  #[⟨.load .long, .slot 0⟩, ⟨.store .long, .slot 2⟩, ⟨.load .long, .slot 2⟩, ⟨.valueReturn .long, .none⟩]

def shelvedMain : Method := ⟨"main", "(J)J", 8, some shelved⟩

def shelvedClass : ClassFile := ⟨"Shelved", none, [], 0, 0, [], [shelvedMain]⟩

def shelvedWorld : World := ⟨.empty, .standard, none, [], .still 0⟩

/-- It finds the variable that it put the value into, and in the whole it misses none. -/
theorem Chain.execute_within_locals_shelved : shelved.Built ∧ (∀ i ∈ shelved.instructions, i.slotEnd ≤ 0xffff) ∧
    shelvedMain.body = some shelved ∧
    (∀ q, Visits standard shelvedWorld shelvedClass shelvedMain shelved [.long 5] none 9 (.start .standard) q →
      q.pc = 2 → ∀ hooks e t, Step.execute standard hooks ⟨.load .long, .slot 2⟩ q.activation shelvedWorld q.state =
        .error e t → e.isLocal = false) ∧
    ∀ e s', standard.executeWithin 9 shelvedClass shelvedMain [.long 5] none shelvedWorld (.start .standard) =
      .error e s' → e.isLocal = false := by
  have hbuilt : shelved.Built := .ofInstructions _
  have hslots : ∀ i ∈ shelved.instructions, i.slotEnd ≤ 0xffff := by decide
  obtain ⟨-, hplaces, hpasses⟩ := @execute_within_locals standard shelvedWorld (.start .standard) shelvedClass
    shelvedMain shelved [.long 5] none 9 hbuilt hslots rfl
  refine ⟨hbuilt, hslots, rfl, fun q hq hpc => hplaces q _ hq (by rw [hpc]; rfl) (.inl ⟨.long, rfl⟩), fun e s' h => ?_⟩
  -- no instruction sets up a class or calls a method, so there is nothing to pass on
  have hplain : ∀ i ∈ shelved.instructions.toList, Step.intent i = pure .plain := by
    simp only [shelved, MethodBody.ofInstructions, MethodBody.withMaxLocals, List.forall_mem_cons]
    exact ⟨rfl, rfl, rfl, rfl, List.forall_mem_nil _⟩
  by_contra he
  obtain ⟨q, t, -, fuel, i, asked, stack, -, hi, hintent, hends⟩ := hpasses e s' h (Bool.not_eq_false _ ▸ he)
  rw [hplain i (Array.mem_of_getElem? hi).val] at hintent
  cases hintent
  obtain hsetUp | ⟨_, _, hask⟩ := hends
  · cases hsetUp
  · cases hask

end Jvm
