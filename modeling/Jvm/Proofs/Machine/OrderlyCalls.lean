import Jvm.Proofs.Machine.OrderlySteps

/-!
# Calls are orderly

A call that supplies what its descriptor says is answered by an orderly action, whichever provider of the
standard chain answers it (`Chain.orderly_resolveWith`). A native method is found under the signature that the
call spells out, so it gets as many arguments as that has parameters. A method of the program is found by the
descriptor of the call and has code, so it is entered with what it needs (`Method.Entered`).
-/

namespace Jvm

open Exec (Anything)

/-- The method may be executed with the arguments and the receiver. -/
structure Method.Entered (E : Demands) (n : Nat) (m : Method) (arguments : List Value) (receiver : Option Value) :
    Prop where
  body : E.handles → m.body.isSome = true
  length : E.handles → ∀ d, MethodDescriptor.parse m.descriptor = .ok d → arguments.length = d.parameters.length
  arguments : ∀ v ∈ arguments, E.Issues n v
  receiver : ∀ v ∈ receiver, E.Issues n v

namespace ClassDictionary

variable {d : ClassDictionary} {owner name descriptor : String} {c : ClassFile} {index : Nat}

theorem method_of_methodWithBody? (h : d.methodWithBody? owner name descriptor = some (c, index)) :
    ∃ m, c.methods[index]? = some m ∧ m.descriptor = descriptor ∧ m.body.isSome = true := by
  simp only [methodWithBody?, Option.bind_eq_bind, Option.bind_eq_some_iff] at h
  obtain ⟨c', -, i, hi, m, hm, h⟩ := h
  split at h <;> cases h
  refine ⟨m, hm, ?_, ‹_›⟩
  obtain ⟨hlt, hname, -⟩ := List.findIdx?_eq_some_iff_getElem.1 hi
  obtain ⟨_, rfl⟩ := List.getElem?_eq_some_iff.1 hm
  simp only [Bool.and_eq_true, beq_iff_eq] at hname
  exact hname.2

theorem method_of_resolveMethod? (h : d.resolveMethod? owner name descriptor = some (c, index)) :
    ∃ m, c.methods[index]? = some m ∧ m.descriptor = descriptor ∧ m.body.isSome = true := by
  obtain ⟨n, -, hn⟩ := List.exists_of_findSome?_eq_some h
  exact method_of_methodWithBody? hn

/-- A call reaches methods with its descriptor, and with code. -/
theorem method_of_target? {heap : Heap} {call : Call} (h : d.target? heap call = some (c, index)) :
    ∃ m, c.methods[index]? = some m ∧ m.descriptor = call.member.descriptor ∧ m.body.isSome = true := by
  unfold target? at h
  dsimp only at h
  split at h
  · exact method_of_methodWithBody? h
  rcases Option.or_eq_some_iff.1 h with h | ⟨-, h⟩
  · split at h
    · simp only [Option.bind_eq_bind, Option.bind_eq_some_iff] at h
      obtain ⟨v, -, _, -, className, -, found, hfound, m, -, h⟩ := h
      split at h <;> cases h
      exact method_of_resolveMethod? hfound
    · cases h
  · exact method_of_resolveMethod? h

end ClassDictionary

variable {E : Surroundings} {n : Nat} {c : Call}
  {execute : ClassFile → Method → List Value → Option Value → Exec Value} {handOn : Call → Exec Value}

/-- What answers a call may rely on: executing a method of the program, and handing on a call. -/
structure Answering (E : Surroundings) (execute : ClassFile → Method → List Value → Option Value → Exec Value)
    (handOn : Call → Exec Value) : Prop where
  execute : ∀ n owner m arguments receiver, m.Entered E.toDemands n arguments receiver →
    E.calls n (execute owner m arguments receiver)
  handOn : ∀ n c, c.Proper E.toDemands n → E.calls n (handOn c)

namespace Provider

theorem orderly_invokeNative (h : Answering E execute handOn) (hc : c.Proper E.toDemands n) :
    Exec.Orderly E n E.Issues ((native Catalog.library).invoke execute handOn c) := by
  obtain ⟨d, hd, hsupplied⟩ := hc
  unfold invoke
  dsimp only
  split
  · exact .mild rfl
  rename_i m hm
  obtain ⟨cs, hcs, hone, hrun⟩ := Library.orderly_library m (List.mem_of_find?_eq_some hm)
  -- the signature under which the method is found is that of the call
  have hsignature : c.member.name ++ c.member.descriptor = String.ofList cs :=
    (Catalog.key_of_find? hm).2.symm.trans hcs
  rw [← Library.arity_eq hone hsignature hd] at hsupplied
  refine (hrun n c hsupplied).bind fun k reply _ hreply => ?_
  split
  · exact .result hreply
  rename_i next
  refine (Exec.Orderly.call (h.handOn k next hreply)).bind fun j v _ hv => ?_
  split
  · exact .scalar rfl
  · exact .result hv

theorem orderly_invokeMapped (h : Answering E execute handOn) (hc : c.Proper E.toDemands n) :
    Exec.Orderly E n E.Issues (mapped.invoke execute handOn c) := by
  obtain ⟨d, hd, hsupplied⟩ := hc
  unfold invoke
  dsimp only
  refine .world (fun w _ => .get (fun s _ hn => ?_) fun s t l _ _ hheap => by rw [hheap]; rfl) fun _ _ => rfl
  split
  · exact .mild rfl
  rename_i owner index htarget
  obtain ⟨m, hm, hdescriptor, hbody⟩ := ClassDictionary.method_of_target? htarget
  rw [hm]
  dsimp only
  have hexecute : ∀ {k receiver}, n ≤ k → (∀ v ∈ receiver, E.Issues k v) →
      Exec.Orderly E k E.Issues (execute owner m c.arguments receiver) := by
    intro k receiver hk hreceiver
    refine .call (h.execute k owner m c.arguments receiver ⟨fun _ => hbody, fun hh d' hd' => ?_,
      fun v hv => (hsupplied.arguments v hv).mono hk, hreceiver⟩)
    rw [hdescriptor, hd] at hd'
    cases hd'
    exact hsupplied.length hh
  split
  · exact hexecute hn fun v hv => by cases hv
  refine (hsupplied.mono hn).afterThis fun this hthis => ?_
  have hreceiver : ∀ {k}, s.heap.size ≤ k → ∀ v ∈ some this, E.Issues k v := by
    rintro k hk v ⟨⟩
    exact hthis.mono hk
  split
  · exact .mild rfl
  split
  · refine (Exec.Orderly.look (fun _ hh hk => Heap.mild_isConstructed ((hthis hh).mono hk)) fun _ _ => rfl).next
      fun constructed => ?_
    split
    · refine (Exec.Orderly.construct hthis _ (p := .record []) ⟨fun _ f hf => (List.not_mem_nil hf).elim, trivial⟩).bind
        fun k _ hk _ => ?_
      exact hexecute (Nat.le_trans hn hk) (hreceiver hk)
    · exact hexecute hn (hreceiver (Nat.le_refl _))
  · exact hexecute hn (hreceiver (Nat.le_refl _))

end Provider

namespace Chain

theorem orderly_resolveWith (h : Answering E execute handOn) (hc : c.Proper E.toDemands n) :
    Exec.Orderly E n (fun k r => ∀ v ∈ r, E.Issues k v) (standard.resolveWith execute handOn c) := by
  refine .world (fun w _ => .get (fun s _ hn => ?_) fun s t l _ _ hheap => by rw [hheap]; rfl) fun _ _ => rfl
  have hraised : c.Proper E.toDemands s.heap.size := hc.imp fun d hd => ⟨hd.1, hd.2.mono hn⟩
  split
  · rename_i p hp
    have hinvoke : Exec.Orderly E s.heap.size E.Issues (p.invoke execute handOn c) := by
      have hmem := List.mem_of_find?_eq_some hp
      simp only [standard, List.mem_cons, List.not_mem_nil, or_false] at hmem
      rcases hmem with rfl | rfl | rfl
      · exact Provider.orderly_invokeNative h hraised
      · exact .mild rfl
      · exact Provider.orderly_invokeMapped h hraised
    refine hinvoke.map fun k v _ hv j hj u hu => ?_
    cases hu
    exact hv.mono hj
  · exact .pure fun _ _ v hv => by cases hv

end Chain

end Jvm
