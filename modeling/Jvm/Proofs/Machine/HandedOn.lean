import Jvm.Proofs.Machine.Changes
import Mathlib.Data.Fintype.Card

/-!
# Calls that are handed on

The only call that is handed on is one of the method for calls by reflection, and nothing changes by it
(`answer_handOn`). So how often a call is handed on is a matter of the objects that there are
(`Chain.HandedOn`). A call that is handed on without end is cut off, whatever the fuel
(`invokeWithin_unending`). Any other is handed on at most twice more often than there are objects
(`HandedOn.le`): its arguments come out of an array, and the array of a call says how often the call is handed on
from there.
-/

namespace Jvm

open Exec (Any)

variable {c c' next next' : Call} {w : World} {s t : State}

/-! ### What is handed on -/

/-- The references of a value that is an array; `null` stands for none. -/
def Exec.references (v : Value) : Exec (List Value) := do
  if v.isNull then return [] else (← Exec.narrow View.array v).references

theorem Exec.references_ok {v : Value} {vs : List Value} (h : Exec.references v w s = .ok vs t) :
    t = s ∧ (vs = [] ∨ ∃ id, v = .ref id ∧ id < s.heap.size) := by
  unfold Exec.references at h
  split at h
  · cases h
    exact ⟨rfl, .inl rfl⟩
  obtain ⟨a, u, harray, hvs⟩ := Exec.bind_ok h
  obtain rfl := Exec.state_readHeap harray
  obtain ⟨-, rfl⟩ := Exec.ofExcept_ok hvs
  rw [Exec.narrow, Exec.readHeap_apply] at harray
  cases hnarrow : t.heap.narrow View.array v with
  | error => simp only [hnarrow] at harray; cases harray
  | ok b =>
    obtain ⟨id, p, rfl, hid, -⟩ := Heap.narrow_eq_ok.1 hnarrow
    exact ⟨rfl, .inr ⟨id, rfl, Heap.lt_size_of_contents? hid⟩⟩

theorem Call.argument_ok {index : Nat} {v : Value} (h : c.argument index = .ok v) : c.arguments[index]? = some v := by
  unfold Call.argument at h
  split at h <;> cases h
  assumption

theorem Call.narrowThis_ok {α : Type} {view : View α} {a : α} (h : c.narrowThis view w s = .ok a t) :
    t = s ∧ c.receiver.isSome := by
  obtain ⟨this, u, hthis, hnarrow⟩ := Exec.bind_ok h
  obtain ⟨hthis, rfl⟩ := Exec.ofExcept_ok hthis
  refine ⟨Exec.state_readHeap hnarrow, ?_⟩
  unfold Call.this at hthis
  split at hthis
  · rename_i hc
    rw [hc]
    rfl
  · cases hthis

theorem Call.referencesArgument_ok {index : Nat} {vs : List Value} (h : c.referencesArgument index w s = .ok vs t) :
    t = s ∧ ∃ v, c.arguments[index]? = some v ∧ Exec.references v w s = .ok vs s := by
  obtain ⟨v, u, hargument, hvs⟩ := Exec.bind_ok h
  obtain ⟨hv, rfl⟩ := Exec.ofExcept_ok hargument
  obtain ⟨rfl, -⟩ := Exec.references_ok hvs
  exact ⟨rfl, v, Call.argument_ok hv, hvs⟩

theorem Exec.ofDescriptor_ok {α : Type} {r : Except DescriptorError α} {a : α} (h : ofDescriptor r w s = .ok a t) :
    t = s := by
  cases r with
  | error => cases h
  | ok => cases h; rfl

/-- What is called by reflection has its receiver and its arguments from the arguments of the call. Nothing
changes. -/
theorem Library.invokeMethod_forward (h : invokeMethod c w s = .ok (.forward next) t) :
    t = s ∧ c.receiver.isSome ∧ (∃ v, c.arguments[1]? = some v ∧ Exec.references v w s = .ok next.arguments s) ∧
      (next.receiver = none ∨ next.receiver = c.arguments[0]?) := by
  obtain ⟨m, s₁, hm, htyped⟩ := Exec.bind_ok h
  obtain ⟨rfl, hreceiver⟩ := Call.narrowThis_ok hm
  obtain ⟨d, s₂, hd, hchecked⟩ := Exec.bind_ok htyped
  obtain rfl := Exec.ofDescriptor_ok hd
  cases hprimitive : (d.parameters ++ [d.returns]).find? (fun t => !t.isReference && !t.isVoid) with
  | some => rw [hprimitive] at hchecked; cases hchecked
  | none =>
  rw [hprimitive] at hchecked
  obtain ⟨arguments, s₃, harguments, hcounted⟩ := Exec.bind_ok hchecked
  obtain ⟨rfl, hreferences⟩ := Call.referencesArgument_ok harguments
  dsimp only at hcounted
  split at hcounted
  · cases hcounted
  obtain ⟨_, _, hread, hdeclared⟩ := Exec.bind_ok hcounted
  cases hread
  split at hdeclared
  · cases hdeclared
    exact ⟨rfl, hreceiver, hreferences, .inl rfl⟩
  obtain ⟨receiver, s₄, hargument, hforward⟩ := Exec.bind_ok hdeclared
  obtain ⟨hfirst, rfl⟩ := Exec.ofExcept_ok hargument
  split at hforward
  · cases hforward
  · cases hforward
    exact ⟨rfl, hreceiver, hreferences, .inr (Call.argument_ok hfirst).symm⟩

/-- What is called by reflection depends on the receiver and the arguments only. -/
theorem Library.invokeMethod_congr (hreceiver : c.receiver = c'.receiver) (harguments : c.arguments = c'.arguments) :
    invokeMethod c = invokeMethod c' := by
  obtain ⟨member, kind, receiver, arguments⟩ := c
  obtain ⟨member', kind', receiver', arguments'⟩ := c'
  cases hreceiver
  cases harguments
  rfl

namespace Chain

/-- The method by which methods are called by reflection. -/
def invoker : MemberRef :=
  ⟨"java/lang/reflect/Method", "invoke", "(Ljava/lang/Object;[Ljava/lang/Object;)Ljava/lang/Object;"⟩

theorem find?_invoker : Catalog.library.find? invoker.owner invoker.signature =
    some ⟨invoker.owner, invoker.signature, Library.invokeMethod⟩ := by rfl

variable {chain : Chain}

theorem answerMapped_ne_handOn : Provider.mapped.answer c w s ≠ .ok (.handOn next) t := by
  intro h
  obtain ⟨_, _, hread, hplaced⟩ := Exec.bind_ok h
  cases hread
  obtain ⟨_, _, hget, hfound⟩ := Exec.bind_ok hplaced
  cases hget
  cases htarget : w.program.target? s.heap c with
  | none => simp only [htarget] at hfound; cases hfound
  | some place =>
    simp only [htarget] at hfound
    cases hm : place.1.methods[place.2]? with
    | none => simp only [hm] at hfound; cases hfound
    | some m =>
      simp only [hm] at hfound
      split at hfound
      · cases hfound
      obtain ⟨this, u, -, hthis⟩ := Exec.bind_ok hfound
      split at hthis
      · cases hthis
      split at hthis
      · obtain ⟨constructed, u', -, hconstructed⟩ := Exec.bind_ok hthis
        split at hconstructed
        · obtain ⟨_, _, -, hexecute⟩ := Exec.bind_ok hconstructed
          cases hexecute
        · cases hconstructed
      · cases hthis

/-- A call that is handed on is one by reflection. -/
theorem answer_handOn (hchain : chain.Ordinary) (h : chain.answer c w s = .ok (.handOn next) t) :
    c.Reflective ∧ Library.invokeMethod c w s = .ok (.forward next) t := by
  rw [answer_apply] at h
  cases hp : chain.provider? w.program s.heap c with
  | none => rw [hp] at h; cases h
  | some p =>
    rw [hp] at h
    have hordinary := hchain p (List.mem_of_find?_eq_some hp)
    cases p with
    | comparison => cases h
    | mapped => exact absurd h answerMapped_ne_handOn
    | native catalog =>
      obtain rfl : catalog = Catalog.library := hordinary
      dsimp only [Provider.answer] at h
      cases hm : Catalog.library.find? c.member.owner c.member.signature with
      | none => rw [hm] at h; cases h
      | some m =>
        rw [hm] at h
        obtain ⟨reply, u, hreply, hforward⟩ := Exec.bind_ok h
        cases reply with
        | value => cases hforward
        | forward call =>
          cases hforward
          have hchanges : Exec.Changes False _ (m.run c) :=
            (Library.alike_library m (List.mem_of_find?_eq_some hm) c).changes
          obtain ⟨hinvoker, -⟩ := (hchanges.of_ok hreply).1
          obtain ⟨howner, hsignature⟩ := Catalog.key_of_find? hm
          rw [howner, hsignature] at hinvoker
          rw [hinvoker.1, hinvoker.2] at hm
          cases hm.symm.trans find?_invoker
          exact ⟨hinvoker, hreply⟩

theorem state_of_handOn (hchain : chain.Ordinary) (h : chain.answer c w s = .ok (.handOn next) t) : t = s :=
  (Library.invokeMethod_forward (answer_handOn hchain h).2).1

/-- A call that is handed on comes to what the other call comes to. -/
theorem invokeWithin_handOn {fuel : Nat} (h : chain.answer c w s = .ok (.handOn next) s) :
    chain.invokeWithin (fuel + 1) c w s = match chain.invokeWithin fuel next w s with
      | .ok v t => .ok (if v = .void then .null else v) t
      | .error e t => .error e t := by
  rw [invokeWithin_eq, Exec.bind_apply, h]
  dsimp only [Answer.fulfil]
  rw [Exec.bind_apply]
  cases chain.invokeWithin fuel next w s with
  | error e t => rfl
  | ok v t => cases v <;> rfl

/-- A call that is not handed on is answered whatever handing on does. -/
theorem fulfil_eq_of_last {execute : ClassFile → Method → List Value → Option Value → Exec Value}
    (h : ∀ next t, chain.answer c w s ≠ .ok (.handOn next) t) (handOn handOn' : Call → Exec Value) :
    (chain.answer c >>= Answer.fulfil execute handOn) w s =
      (chain.answer c >>= Answer.fulfil execute handOn') w s := by
  rw [Exec.bind_apply, Exec.bind_apply]
  cases ha : chain.answer c w s with
  | error => rfl
  | ok answer t =>
    cases answer with
    | handOn next => exact absurd ha (h next t)
    | _ => rfl

/-! ### How often -/

/-- The call comes to an end after it has been handed on so often: to a call that is not handed on. -/
inductive HandedOn (chain : Chain) (w : World) (s : State) : Call → Nat → Prop
  | last {c : Call} (h : ∀ next t, chain.answer c w s ≠ .ok (.handOn next) t) : HandedOn chain w s c 0
  | next {c next : Call} {n : Nat} (h : chain.answer c w s = .ok (.handOn next) s)
      (hnext : HandedOn chain w s next n) : HandedOn chain w s c (n + 1)

namespace HandedOn

variable {n n' : Nat}

theorem unique (h : HandedOn chain w s c n) (h' : HandedOn chain w s c n') : n = n' := by
  induction h generalizing n' with
  | last hlast =>
    cases h' with
    | last => rfl
    | next h _ => exact absurd h (hlast _ _)
  | next h _ ih =>
    cases h' with
    | last hlast => exact absurd h (hlast _ _)
    | next h' hnext =>
      cases h.symm.trans h'
      rw [ih hnext]

/-- There is a call that is handed on less often. -/
theorem exists_of_le (h : HandedOn chain w s c n) {k : Nat} (hk : k ≤ n) : ∃ c', HandedOn chain w s c' k := by
  induction h with
  | @last c hlast =>
    obtain rfl := Nat.le_zero.1 hk
    exact ⟨c, .last hlast⟩
  | @next c next n hc hnext ih =>
    rcases Nat.le_succ_iff.1 hk with hk | rfl
    · exact ih hk
    · exact ⟨c, .next hc hnext⟩

theorem exists_next (h : HandedOn chain w s c (n + 1)) :
    ∃ next, chain.answer c w s = .ok (.handOn next) s ∧ HandedOn chain w s next n := by
  cases h with
  | next h hnext => exact ⟨_, h, hnext⟩

variable (hchain : chain.Ordinary)

include hchain

/-- The arguments of what is handed on are read off an array. -/
theorem exists_array (h : HandedOn chain w s c (n + 2)) :
    ∃ id, c.arguments[1]? = some (.ref id) ∧ id < s.heap.size := by
  obtain ⟨next, hc, h⟩ := h.exists_next
  obtain ⟨_, hnext, -⟩ := h.exists_next
  obtain ⟨-, -, ⟨v, hv, hreferences⟩, -⟩ := Library.invokeMethod_forward (answer_handOn hchain hc).2
  obtain ⟨-, -, ⟨v', hv', -⟩, -⟩ := Library.invokeMethod_forward (answer_handOn hchain hnext).2
  rcases (Exec.references_ok hreferences).2 with hnil | ⟨id, rfl, hid⟩
  · rw [hnil] at hv'
    cases hv'
  · exact ⟨id, hv, hid⟩

theorem arguments_eq (hc : chain.answer c w s = .ok (.handOn next) s)
    (hc' : chain.answer c' w s = .ok (.handOn next') s) (h : c.arguments[1]? = c'.arguments[1]?) :
    next.arguments = next'.arguments := by
  obtain ⟨-, -, ⟨v, hv, hreferences⟩, -⟩ := Library.invokeMethod_forward (answer_handOn hchain hc).2
  obtain ⟨-, -, ⟨v', hv', hreferences'⟩, -⟩ := Library.invokeMethod_forward (answer_handOn hchain hc').2
  obtain rfl : v = v' := Option.some.inj (hv.symm.trans (h.trans hv'))
  exact (EStateM.Result.ok.inj (hreferences.symm.trans hreferences')).1

/-- A call that is handed on to one that is handed on gives it the receiver, too. -/
theorem receiver_eq (hc : chain.answer c w s = .ok (.handOn next) s)
    (hnext : chain.answer next w s = .ok (.handOn next') s) : next.receiver = c.arguments[0]? := by
  obtain ⟨-, -, -, hreceiver⟩ := Library.invokeMethod_forward (answer_handOn hchain hc).2
  obtain ⟨-, hsome, -⟩ := Library.invokeMethod_forward (answer_handOn hchain hnext).2
  refine hreceiver.resolve_left fun hnone => ?_
  rw [hnone] at hsome
  cases hsome

/-- The array says how often the call is handed on. The receivers of two calls with it may differ, and those of
the calls that they are handed on as, but those of the calls after these come out of the array. -/
theorem eq_of_array (h : HandedOn chain w s c (n + 3)) (h' : HandedOn chain w s c' (n' + 3))
    (harray : c.arguments[1]? = c'.arguments[1]?) : n = n' := by
  obtain ⟨d, hc, h⟩ := h.exists_next
  obtain ⟨e, hd, h⟩ := h.exists_next
  obtain ⟨f, he, h⟩ := h.exists_next
  obtain ⟨d', hc', h'⟩ := h'.exists_next
  obtain ⟨e', hd', h'⟩ := h'.exists_next
  obtain ⟨f', he', h'⟩ := h'.exists_next
  have hread : d.arguments = d'.arguments := arguments_eq hchain hc hc' harray
  have harguments : e.arguments = e'.arguments := arguments_eq hchain hd hd' (by rw [hread])
  have hreceiver : e.receiver = e'.receiver := by rw [receiver_eq hchain hd he, receiver_eq hchain hd' he', hread]
  have hmethod := (answer_handOn hchain he).2
  rw [Library.invokeMethod_congr hreceiver harguments, (answer_handOn hchain he').2] at hmethod
  cases hmethod
  exact h.unique h'

/-- A call that comes to an end is handed on at most twice more often than there are objects. -/
theorem le (h : HandedOn chain w s c n) : n ≤ s.heap.size + 2 := by
  have harrays : ∀ k : Fin (n - 2), ∃ id : Fin s.heap.size, ∃ c', c'.arguments[1]? = some (.ref id) ∧
      HandedOn chain w s c' (k + 3) := by
    intro k
    obtain ⟨c', hc'⟩ := h.exists_of_le (k := k + 3) (by omega)
    obtain ⟨id, harray, hid⟩ := hc'.exists_array hchain
    exact ⟨⟨id, hid⟩, c', harray, hc'⟩
  choose array call harray hcall using harrays
  have hinjective : Function.Injective array := fun k k' heq =>
    Fin.ext ((hcall k).eq_of_array hchain (hcall k') ((harray k).trans (heq ▸ (harray k').symm)))
  have hcard := Fintype.card_le_of_injective array hinjective
  rw [Fintype.card_fin, Fintype.card_fin] at hcard
  omega

end HandedOn

/-- A call that is handed on without end is cut off, whatever the fuel, and nothing changes. -/
theorem invokeWithin_unending (hchain : chain.Ordinary) (h : ∀ n, ¬ HandedOn chain w s c n) (fuel : Nat) :
    chain.invokeWithin fuel c w s = .error .outOfFuel s := by
  induction fuel generalizing c with
  | zero =>
    rw [invokeWithin]
    rfl
  | succ fuel ih =>
    obtain ⟨next, t, hnext⟩ : ∃ next t, chain.answer c w s = .ok (.handOn next) t := by
      by_contra hlast
      exact h 0 (.last fun next t hnext => hlast ⟨next, t, hnext⟩)
    obtain rfl := state_of_handOn hchain hnext
    rw [invokeWithin_handOn hnext, ih fun n hn => h (n + 1) (.next hnext hn)]

end Chain

end Jvm
