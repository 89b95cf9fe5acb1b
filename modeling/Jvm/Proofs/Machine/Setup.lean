import Jvm.Proofs.Machine.Simulation
import Mathlib.Logic.Relation

/-!
# Setting up a class without code

A class is idle (`ClassDictionary.Idle`) when neither it nor a class above it has code to be set up by.
Setting it up ends, whatever circles its superclasses form, and only notes which classes it came to
(`idle_initClassWithin`), so that what runs afterwards runs as it would have run before.
-/

namespace Jvm

namespace ClassDictionary

variable {d : ClassDictionary} {name above : String} {c : ClassFile}

/-- `above` is the class itself or one of its superclasses. -/
def Extends (d : ClassDictionary) : String → String → Prop :=
  Relation.ReflTransGen fun name above => ∃ c, d.get? name = some c ∧ c.superName = some above

/-- No code runs when the class is set up. -/
def Idle (d : ClassDictionary) (name : String) : Prop :=
  ∀ above, d.Extends name above → ∀ c, d.get? above = some c → c.setup? = none

theorem Idle.super (h : d.Idle name) (hc : d.get? name = some c) (hsuper : c.superName = some above) :
    d.Idle above := fun n hn => h n (.head ⟨c, hc, hsuper⟩ hn)

theorem name_of_get? (hc : d.get? name = some c) : c ∈ d.classes ∧ c.name = name :=
  ⟨List.mem_of_find?_eq_some hc, by simpa using List.find?_some hc⟩

/-- The classes whose set-up has not begun. -/
def waiting (d : ClassDictionary) (started : List String) : List ClassFile :=
  d.classes.filter fun c => !started.contains c.name

theorem length_waiting_le (d : ClassDictionary) (started : List String) : (d.waiting started).length ≤ d.size :=
  List.length_filter_le _ _

theorem length_waiting_cons (hc : d.get? name = some c) {started : List String} (hname : name ∉ started) :
    (d.waiting (name :: started)).length < (d.waiting started).length := by
  obtain ⟨hmem, rfl⟩ := name_of_get? hc
  have hfilter : d.waiting (c.name :: started) = (d.waiting started).filter fun b => b.name != c.name := by
    simp only [waiting, List.filter_filter, List.contains_cons, Bool.not_or, bne]
  rw [hfilter, List.length_filter_lt_length_iff_exists]
  exact ⟨c, by simp [waiting, hmem, hname], by simp⟩

theorem length_waiting_le_of_subset (d : ClassDictionary) {started started' : List String}
    (h : ∀ n ∈ started, n ∈ started') : (d.waiting started').length ≤ (d.waiting started).length := by
  have hfilter : d.waiting started' = (d.waiting started).filter fun c => !started'.contains c.name := by
    rw [waiting, waiting, List.filter_filter]
    refine List.filter_congr fun c _ => ?_
    by_cases hc : c.name ∈ started
    · simp [h _ hc]
    · simp [hc]
  rw [hfilter]
  exact List.length_filter_le _ _

end ClassDictionary

theorem ClassFile.mem_of_setup? {c : ClassFile} {m : Method} (h : c.setup? = some m) : m ∈ c.methods :=
  List.mem_of_find?_eq_some (Option.filter_eq_some_iff.1 h).1

theorem World.size_lt_fuel (w : World) : w.program.size < w.fuel := by
  have hlt : w.program.size < w.limits.heapObjects + w.program.size + 8 := by omega
  exact Nat.lt_of_lt_of_le hlt (Nat.le_mul_of_pos_left _ (by omega))

theorem State.Precedes.refl (d : ClassDictionary) (s : State) : s.Precedes d s :=
  ⟨rfl, rfl, rfl, rfl, fun _ hn => hn, fun _ hn hn' => absurd hn hn'⟩

/-- The instructions that have been counted make no difference. -/
theorem State.Precedes.counted {d : ClassDictionary} {s t : State} (h : s.Precedes d t) (steps : Nat) :
    s.Precedes d { t with steps } := ⟨h.frames, h.heap, h.statics, h.readings, h.started, h.idle⟩

theorem State.Precedes.trans {d : ClassDictionary} {s t u : State} (h : s.Precedes d t)
    (h' : t.Precedes d u) : s.Precedes d u := by
  refine ⟨h'.frames.trans h.frames, h'.heap.trans h.heap, h'.statics.trans h.statics,
    h'.readings.trans h.readings, fun n hn => h'.started n (h.started n hn), fun n hn hn' c hc => ?_⟩
  by_cases hnt : n ∈ t.started
  · obtain ⟨hsetup, habove⟩ := h.idle n hnt hn' c hc
    exact ⟨hsetup, fun above hsuper hd => h'.started _ (habove above hsuper hd)⟩
  · exact h'.idle n hn hnt c hc

namespace Chain

variable {chain : Chain} {fuel : Nat} {name : String} {w : World} {s : State}

theorem idle_initClassWithin (hidle : w.program.Idle name)
    (hfuel : (w.program.waiting s.started).length < fuel) :
    ∃ t, initClassWithin chain fuel name w s = .ok () t ∧ s.Precedes w.program t ∧
      (w.program.contains name = true → name ∈ t.started) := by
  induction fuel generalizing name s with
  | zero => omega
  | succ fuel ih =>
    rw [initClassWithin_apply]
    cases hc : w.program.get? name with
    | none => exact ⟨s, rfl, .refl _ s, fun h => by simp [ClassDictionary.contains, hc] at h⟩
    | some c =>
      by_cases hname : name ∈ s.started
      · exact ⟨s, if_pos hname, .refl _ s, fun _ => hname⟩
      have hsetup : c.setup? = none := hidle name .refl c hc
      have hlength := ClassDictionary.length_waiting_cons hc hname
      -- the class is noted first, then the one above it is set up
      obtain ⟨t, ht, hprec, habove⟩ : ∃ t, initAbove chain fuel c w { s with started := name :: s.started } =
          .ok () t ∧ State.Precedes w.program { s with started := name :: s.started } t ∧
          ∀ above, c.superName = some above → w.program.contains above = true → above ∈ t.started := by
        unfold initAbove
        cases hsuper : c.superName with
        | none =>
          exact ⟨_, rfl, .refl _ _, fun above h => by cases h⟩
        | some above =>
          obtain ⟨t, ht, hprec, habove⟩ := ih (s := { s with started := name :: s.started })
            (hidle.super hc hsuper) (by dsimp only; omega)
          exact ⟨t, ht, hprec, fun _ h => by cases h; exact habove⟩
      refine ⟨t, ?_, ⟨hprec.frames, hprec.heap, hprec.statics, hprec.readings,
        fun n hn => hprec.started n (List.mem_cons_of_mem _ hn), fun n hn hn' c' hc' => ?_⟩,
        fun _ => hprec.started name List.mem_cons_self⟩
      · dsimp only
        rw [if_neg hname, Exec.bind_apply, ht, initSelf, hsetup]
        rfl
      · by_cases hnn : n = name
        · subst hnn
          obtain rfl := Option.some.inj (hc.symm.trans hc')
          exact ⟨hsetup, habove⟩
        · exact hprec.idle n hn (fun h => (List.mem_cons.1 h).elim hnn hn') c' hc'

end Chain

end Jvm
