import Jvm.Flow.Analysis
import Jvm.Proofs.Flow.Transfer

/-!
# The search ends in a fixed point

`Progress.Sound` is the invariant of the search: whatever is not pending is settled, so that the effect
of its instruction succeeds on the stack known there, is recorded, and is covered by what is known at
every successor. One edge keeps it for all instructions but the visited one (`follow_spec`), all edges
of a visit together settle that one too (`sound_visit`), and so the search ends where everything is
settled (`sound_solve`).
-/

namespace Jvm.Flow

variable {owner : String} {code : Array Instruction}

/-- `known` knows no more than `stack`, entry by entry. -/
abbrev StackCovers (known stack : List Frame) : Prop := List.Forall₂ Frame.Covers known stack

theorem StackCovers.refl (s : List Frame) : StackCovers s s :=
  List.forall₂_same.2 fun f _ => .refl f

theorem StackCovers.trans {a b c : List Frame} (h : StackCovers a b) (h' : StackCovers b c) :
    StackCovers a c := by
  induction h generalizing c with
  | nil => exact h'
  | cons hab _ ih =>
    cases h' with
    | cons hbc hs => exact .cons (hab.trans hbc) (ih hs)

/-- Every frame of the stack is one that the analysis of `code` makes. -/
abbrev StackValid (code : Array Instruction) (stack : List Frame) : Prop := ∀ f ∈ stack, f.Valid code

namespace Progress

/-- The stack known at an instruction. -/
def at? (p : Progress) (n : Nat) : Option (List Frame) := (p.incoming[n]?).join

/-- The stack that an edge from `n` to `m` delivers. -/
def delivered (n m : Nat) (stack : List Frame) : List Frame :=
  if m ≤ n then stack.map Frame.forget else stack

/-- The entry of `n` is right for the stack known there, and its successors know of it. -/
def Settled (owner : String) (code : Array Instruction) (p : Progress) (n : Nat) : Prop :=
  ∀ stack, p.at? n = some stack → ∃ i e after,
    code[n]? = some i ∧ transfer owner n i stack = .ok (e, after) ∧ p.entries[n]? = some (some e) ∧
      ∀ m s, (m, s) ∈ successors n i after →
        ∃ known, p.at? m = some known ∧ StackCovers known (delivered n m s)

/-- What holds between visits. -/
structure Sound (owner : String) (code : Array Instruction) (p : Progress) : Prop where
  incoming : p.incoming.size = code.size
  entries : p.entries.size = code.size
  start : 0 < code.size → p.at? 0 = some []
  valid : ∀ n stack, p.at? n = some stack → StackValid code stack
  reached : ∀ n e, p.entries[n]? = some (some e) → ∃ stack, p.at? n = some stack
  settled : ∀ n, n ∉ p.pending → p.Settled owner code n

/-- `q` knows of every stack that `p` knows of, and has changed only what is pending. -/
structure Grows (p q : Progress) : Prop where
  size : q.incoming.size = p.incoming.size
  entries : q.entries = p.entries
  covered : ∀ n stack, p.at? n = some stack → ∃ known, q.at? n = some known ∧ StackCovers known stack
  unchanged : ∀ n, n ∉ q.pending → q.at? n = p.at? n ∧ n ∉ p.pending

theorem Grows.refl (p : Progress) : p.Grows p :=
  ⟨rfl, rfl, fun _ stack h => ⟨stack, h, .refl stack⟩, fun _ h => ⟨rfl, h⟩⟩

theorem Grows.trans {p q r : Progress} (h : p.Grows q) (h' : q.Grows r) : p.Grows r := by
  refine ⟨h'.size.trans h.size, h'.entries.trans h.entries, fun n stack hn => ?_, fun n hn => ?_⟩
  · obtain ⟨known, hk, hc⟩ := h.covered n stack hn
    obtain ⟨known', hk', hc'⟩ := h'.covered n known hk
    exact ⟨known', hk', hc'.trans hc⟩
  · obtain ⟨h1, h2⟩ := h'.unchanged n hn
    obtain ⟨h3, h4⟩ := h.unchanged n h2
    exact ⟨h1.trans h3, h4⟩

end Progress

/-! ### Stacks that meet -/

theorem meetStacks_spec {target : Nat} {a b s : List Frame} (h : meetStacks owner target a b = .ok s)
    (ha : StackValid code a) (hb : StackValid code b) :
    StackValid code s ∧ StackCovers s a ∧ StackCovers s b := by
  rw [meetStacks] at h
  split at h
  · cases h
  split at h
  · cases h
  rename_i hlen hwidth
  simp only [ne_eq, Decidable.not_not] at hlen hwidth
  cases h
  clear hlen
  induction a generalizing b with
  | nil =>
    obtain rfl : b = [] := by simpa using hwidth.symm
    exact ⟨ha, .nil, .nil⟩
  | cons f a ih =>
    cases b with
    | nil => simp at hwidth
    | cons g b =>
      simp only [List.map_cons, List.cons.injEq] at hwidth
      have hf := ha f List.mem_cons_self
      have hg := hb g List.mem_cons_self
      obtain ⟨h1, h2, h3⟩ := ih (fun f hf => ha f (List.mem_cons_of_mem _ hf))
        (fun f hf => hb f (List.mem_cons_of_mem _ hf)) hwidth.2
      rw [List.zipWith_cons_cons]
      refine ⟨?_, .cons Frame.covers_meet_left h2, .cons (Frame.covers_meet_right hf hg hwidth.1) h3⟩
      rintro k (_ | ⟨_, hk⟩)
      · exact Frame.valid_meet hf
      · exact h1 k hk

theorem covers_of_sameAll {a b : List Frame} (h : Frame.sameAll a b = true) (ha : StackValid code a)
    (hb : StackValid code b) : StackCovers a b := by
  induction a generalizing b with
  | nil =>
    cases b with
    | nil => exact .nil
    | cons => simp [Frame.sameAll] at h
  | cons f a ih =>
    cases b with
    | nil => simp [Frame.sameAll] at h
    | cons g b =>
      simp only [Frame.sameAll, Bool.and_eq_true] at h
      exact .cons (Frame.covers_of_same h.1 (ha f List.mem_cons_self) (hb g List.mem_cons_self))
        (ih h.2 (fun f hf => ha f (List.mem_cons_of_mem _ hf))
          (fun f hf => hb f (List.mem_cons_of_mem _ hf)))

theorem valid_delivered {n m : Nat} {s : List Frame} (h : StackValid code s) :
    StackValid code (Progress.delivered n m s) := by
  rw [Progress.delivered]
  split
  · intro f hf
    obtain ⟨g, hg, rfl⟩ := List.mem_map.1 hf
    exact Frame.valid_forget (h g hg)
  · exact h

/-! ### One edge -/

/-- A stack comes to be known at an instruction, which is pending then. -/
def Progress.learn (p : Progress) {t : Nat} (ht : t < p.incoming.size) (s : List Frame) : Progress :=
  { p with incoming := p.incoming.set t (some s), pending := Frame.insertOrigin t p.pending }

theorem at?_learn {p : Progress} {t n : Nat} {s : List Frame} (ht : t < p.incoming.size) :
    (p.learn ht s).at? n = if t = n then some s else p.at? n := by
  simp only [Progress.learn, Progress.at?, Array.getElem?_set]
  split <;> rfl

theorem at?_eq {p : Progress} {t : Nat} (ht : t < p.incoming.size) : p.at? t = p.incoming[t] := by
  rw [Progress.at?, Array.getElem?_eq_getElem ht, Option.join_some]

theorem grows_learn {p : Progress} {t : Nat} {s : List Frame} (ht : t < p.incoming.size)
    (hs : ∀ known, p.at? t = some known → StackCovers s known) : p.Grows (p.learn ht s) := by
  refine ⟨by simp [Progress.learn], rfl, fun n stack hn => ?_, fun n hn => ?_⟩
  · rw [at?_learn ht]
    split
    · rename_i htn
      exact ⟨s, rfl, hs stack (htn ▸ hn)⟩
    · exact ⟨stack, hn, .refl stack⟩
  · simp only [Progress.learn, Frame.mem_insertOrigin, not_or] at hn
    exact ⟨by rw [at?_learn ht, if_neg (Ne.symm hn.1)], hn.2⟩

/-- What an edge does: its stack is the first that is known, or changes the one that is known, or does not. -/
theorem follow_eq {n t : Nat} {opcode : Opcode} {p : Progress} {s : List Frame} (ht : t < p.incoming.size) :
    follow owner n opcode p (t, s) =
      match p.at? t with
      | none => .ok (p.learn ht (Progress.delivered n t s))
      | some known =>
        match meetStacks owner t known (Progress.delivered n t s) with
        | .error e => .error e
        | .ok merged => if Frame.sameAll known merged then .ok p else .ok (p.learn ht merged) := by
  rw [at?_eq ht]
  simp only [follow, dif_pos ht]
  rfl

theorem follow_cases {n t : Nat} {opcode : Opcode} {p q : Progress} {s : List Frame}
    (h : follow owner n opcode p (t, s) = .ok q) : ∃ ht : t < p.incoming.size,
      (p.at? t = none ∧ q = p.learn ht (Progress.delivered n t s)) ∨
      ∃ known merged, p.at? t = some known ∧
        meetStacks owner t known (Progress.delivered n t s) = .ok merged ∧
        ((Frame.sameAll known merged = true ∧ q = p) ∨
          (Frame.sameAll known merged = false ∧ q = p.learn ht merged)) := by
  by_cases ht : t < p.incoming.size
  swap
  · simp [follow, ht] at h
  refine ⟨ht, ?_⟩
  rw [follow_eq ht] at h
  split at h
  · rename_i hnone
    exact .inl ⟨hnone, (Except.ok.inj h).symm⟩
  · rename_i known hknown
    split at h
    · cases h
    rename_i merged hmerged
    refine .inr ⟨known, merged, hknown, hmerged, ?_⟩
    split at h
    · rename_i hsame
      exact .inl ⟨hsame, (Except.ok.inj h).symm⟩
    · rename_i hsame
      exact .inr ⟨Bool.eq_false_iff.2 hsame, (Except.ok.inj h).symm⟩

theorem follow_spec {n t : Nat} {opcode : Opcode} {p q : Progress} {s : List Frame}
    (h : follow owner n opcode p (t, s) = .ok q) (hs : StackValid code s)
    (hp : ∀ n stack, p.at? n = some stack → StackValid code stack) :
    p.Grows q ∧ (∀ n stack, q.at? n = some stack → StackValid code stack) ∧
      ∃ known, q.at? t = some known ∧ StackCovers known (Progress.delivered n t s) := by
  have hd := valid_delivered (n := n) (m := t) hs
  have hlearn : ∀ (ht : t < p.incoming.size) {learnt}, StackValid code learnt →
      ∀ n stack, (p.learn ht learnt).at? n = some stack → StackValid code stack := by
    intro ht learnt hlearnt n stack hn
    rw [at?_learn ht] at hn
    split at hn
    · exact Option.some.inj hn ▸ hlearnt
    · exact hp n stack hn
  obtain ⟨ht, ⟨hnone, rfl⟩ | ⟨known, merged, hknown, hmerged, hcases⟩⟩ := follow_cases h
  · exact ⟨grows_learn ht (by simp [hnone]), hlearn ht hd, _, by rw [at?_learn ht, if_pos rfl], .refl _⟩
  obtain ⟨hv, hc, hc'⟩ := meetStacks_spec hmerged (hp t known hknown) hd
  obtain ⟨hsame, rfl⟩ | ⟨-, rfl⟩ := hcases
  · exact ⟨.refl q, hp, known, hknown, (covers_of_sameAll hsame (hp t known hknown) hv).trans hc'⟩
  · exact ⟨grows_learn ht (by simpa [hknown] using hc), hlearn ht hv, merged, by rw [at?_learn ht, if_pos rfl], hc'⟩

/-! ### One visit -/

theorem follow_all {n : Nat} {opcode : Opcode} {p q : Progress} {edges : List (Nat × List Frame)}
    (h : edges.foldlM (follow owner n opcode) p = .ok q) (hs : ∀ edge ∈ edges, StackValid code edge.2)
    (hp : ∀ n stack, p.at? n = some stack → StackValid code stack) :
    p.Grows q ∧ (∀ n stack, q.at? n = some stack → StackValid code stack) ∧
      ∀ m s, (m, s) ∈ edges →
        ∃ known, q.at? m = some known ∧ StackCovers known (Progress.delivered n m s) := by
  induction edges generalizing p with
  | nil => cases h; exact ⟨.refl _, hp, by simp⟩
  | cons edge edges ih =>
    obtain ⟨t, s⟩ := edge
    rw [List.foldlM_cons] at h
    cases hr : follow owner n opcode p (t, s) with
    | error => rw [hr] at h; cases h
    | ok r =>
      rw [hr] at h
      obtain ⟨hg, hr', known, hk, hc⟩ := follow_spec hr (hs _ List.mem_cons_self) hp
      obtain ⟨hg', hq, hcov⟩ := ih h (fun edge he => hs edge (List.mem_cons_of_mem _ he)) hr'
      refine ⟨hg.trans hg', hq, fun m u hm => ?_⟩
      rcases List.mem_cons.1 hm with hm | hm
      · cases hm
        obtain ⟨known', hk', hc'⟩ := hg'.covered t known hk
        exact ⟨known', hk', hc'.trans hc⟩
      · exact hcov m u hm

theorem valid_transfer {n : Nat} {i : Instruction} {stack after : List Frame} {e : FlowEntry}
    (h : transfer owner n i stack = .ok (e, after)) (hi : code[n]? = some i)
    (hs : StackValid code stack) : StackValid code e.consumed ∧ StackValid code after := by
  obtain ⟨effect, make, heffect, happly, hmake⟩ := transfer_follows h
  refine StackEffect.run?_all (fun p hp => ?_) hs happly
  obtain ⟨-, hsource, hconstant⟩ := hmake p hp
  refine Frame.valid_of_source hsource fun c hc => ?_
  rw [hi, Option.bind_some, ← Instruction.constant_of_pushed heffect hp, ← hconstant, hc]

theorem valid_successors {n : Nat} {i : Instruction} {stack : List Frame} (hs : StackValid code stack) :
    ∀ edge ∈ successors n i stack, StackValid code edge.2 := by
  intro edge he
  simp only [successors, List.mem_append, List.mem_map] at he
  rcases he with ⟨t, -, rfl⟩ | he
  · exact hs
  · split at he
    · rw [List.mem_singleton] at he
      subst he
      dsimp only
      split
      · exact fun f hf => hs f (List.mem_of_mem_drop hf)
      · exact hs
    · cases he

/-- What was settled stays so if nothing changed there. -/
theorem Progress.Settled.grows {p q : Progress} {n : Nat} (h : p.Settled owner code n)
    (hg : p.Grows q) (hn : n ∉ q.pending) : q.Settled owner code n := by
  intro stack hstack
  rw [(hg.unchanged n hn).1] at hstack
  obtain ⟨i, e, after, hi, ht, he, hsucc⟩ := h stack hstack
  refine ⟨i, e, after, hi, ht, by rw [hg.entries, he], fun m s hm => ?_⟩
  obtain ⟨known, hk, hc⟩ := hsucc m s hm
  obtain ⟨known', hk', hc'⟩ := hg.covered m known hk
  exact ⟨known', hk', hc'.trans hc⟩

/-- A visit takes an instruction out of the pending ones. -/
theorem sound_visit {n : Nat} {rest : List Nat} {p q : Progress} (h : p.Sound owner code)
    (hn : p.pending = n :: rest) (hq : visit owner code n { p with pending := rest } = .ok q) :
    q.Sound owner code := by
  have hother : ∀ m, m ≠ n → m ∉ rest → p.Settled owner code m :=
    fun m hm hm' => h.settled m (by simp [hn, hm, hm'])
  simp only [visit] at hq
  split at hq
  · rename_i i stack hi hstack
    split at hq
    · cases hq
    rename_i e after htransfer
    have hvalid := (valid_transfer htransfer hi (h.valid n stack hstack)).2
    obtain ⟨hg, hv, hcov⟩ := follow_all hq (valid_successors hvalid) h.valid
    have hentries : n < p.entries.size := by
      rw [h.entries]; exact (Array.getElem?_eq_some_iff.1 hi).1
    refine ⟨hg.size.trans h.incoming, by rw [hg.entries]; simpa using h.entries, fun hpos => ?_, hv,
      fun m e' he' => ?_, fun m hm => ?_⟩
    · obtain ⟨known, hk, hc⟩ := hg.covered 0 [] (h.start hpos)
      cases hc
      exact hk
    · have hknown : ∃ s, p.at? m = some s := by
        by_cases hmn : m = n
        · exact ⟨stack, hmn ▸ hstack⟩
        · rw [hg.entries, Array.getElem?_setIfInBounds_ne (Ne.symm hmn)] at he'
          exact h.reached m e' he'
      obtain ⟨s, hs⟩ := hknown
      obtain ⟨known, hk, -⟩ := hg.covered m s hs
      exact ⟨known, hk⟩
    · by_cases hmn : m = n
      · -- the stack the visit started from is still the one known, or the instruction would be pending
        subst hmn
        intro s hs
        rw [(hg.unchanged m hm).1] at hs
        obtain rfl : stack = s := Option.some.inj (hstack.symm.trans hs)
        exact ⟨i, e, after, hi, htransfer, by rw [hg.entries]; simp [hentries], hcov⟩
      · refine Progress.Settled.grows (fun s hs => ?_) hg hm
        obtain ⟨j, e', after', hj, ht, he, hsucc⟩ := hother m hmn (hg.unchanged m hm).2 s hs
        exact ⟨j, e', after', hj, ht, by simpa [Array.getElem?_setIfInBounds, Ne.symm hmn] using he, hsucc⟩
  · rename_i hnone
    cases hq
    refine ⟨h.incoming, h.entries, h.start, h.valid, h.reached, fun m hm => ?_⟩
    by_cases hmn : m = n
    · subst hmn
      intro s hs
      have hlt : m < code.size := by
        rw [← h.incoming]
        by_contra hge
        simp [Progress.at?, Array.getElem?_eq_none (Nat.le_of_not_lt hge)] at hs
      exact absurd hs (hnone _ _ (Array.getElem?_eq_getElem hlt))
    · exact hother m hmn hm

/-! ### The whole search -/

theorem sound_iterate {fuel : Nat} {p q : Progress} (h : p.Sound owner code)
    (hq : iterate owner code fuel p = .ok q) : q.Sound owner code ∧ q.pending = [] := by
  induction fuel generalizing p with
  | zero => cases hq
  | succ fuel ih =>
    rw [iterate] at hq
    split at hq
    · rename_i hp
      cases hq
      exact ⟨h, hp⟩
    · rename_i n rest hp
      split at hq
      · cases hq
      · rename_i r hr
        exact ih (sound_visit h hp hr) hq

theorem at?_start {n m : Nat} {stack : List Frame} (h : (Progress.start n).at? m = some stack) :
    m = 0 ∧ stack = [] := by
  simp only [Progress.start, Progress.at?, Array.getElem?_setIfInBounds, Array.getElem?_replicate,
    Array.size_replicate] at h
  split at h
  · rename_i hm
    split at h
    · exact ⟨hm.symm, by simpa using h.symm⟩
    · cases h
  · split at h <;> cases h

theorem sound_start : (Progress.start code.size).Sound owner code := by
  refine ⟨by simp [Progress.start], by simp [Progress.start], fun hpos => ?_, fun n stack h => ?_,
    fun n e he => ?_, fun n hn stack h => ?_⟩
  · simp [Progress.start, Progress.at?, hpos]
  · obtain ⟨-, rfl⟩ := at?_start h
    simp [StackValid]
  · rw [Progress.start, Array.getElem?_replicate] at he
    split at he <;> cases he
  · obtain ⟨rfl, -⟩ := at?_start h
    simp [Progress.start] at hn

/-- Where the search ends everything is settled. -/
theorem sound_solve {b : MethodBody} {p : Progress} (h : solve owner b = .ok p) :
    p.Sound owner b.instructions ∧ p.pending = [] := by
  rw [solve] at h
  split at h
  · rename_i hsize
    cases h
    have hzero : b.instructions.size = 0 := hsize
    exact ⟨⟨hsize.symm, hsize.symm, fun h => by omega, by simp [Progress.at?], by simp,
      fun n _ stack hstack => by simp [Progress.at?] at hstack⟩, rfl⟩
  · exact sound_iterate sound_start h

theorem analyze_eq_ok {b : MethodBody} {a : Analysis} :
    analyze owner b = .ok a ↔ ∃ p : Progress, solve owner b = .ok p ∧ a = ⟨p.entries⟩ := by
  rw [analyze]
  cases solve owner b <;> simp [Except.map, eq_comm]

theorem sound_analyze {b : MethodBody} {a : Analysis} (h : analyze owner b = .ok a) :
    ∃ p : Progress, a = ⟨p.entries⟩ ∧ p.Sound owner b.instructions ∧ p.pending = [] := by
  obtain ⟨p, hp, rfl⟩ := analyze_eq_ok.1 h
  exact ⟨p, rfl, sound_solve hp⟩

/-- An entry is the effect of its instruction on some stack, and takes valid frames. -/
theorem entry_spec {b : MethodBody} {a : Analysis} {n : Nat} {e : FlowEntry}
    (h : analyze owner b = .ok a) (he : a.entry? n = some e) : ∃ i stack after,
      b.instructions[n]? = some i ∧ transfer owner n i stack = .ok (e, after) ∧
      StackValid b.instructions e.consumed := by
  obtain ⟨p, rfl, hsound, hpending⟩ := sound_analyze h
  rw [Analysis.entry?, Option.join_eq_some_iff] at he
  obtain ⟨stack, hstack⟩ := hsound.reached n e he
  obtain ⟨i, e', after, hi, ht, he', -⟩ := hsound.settled n (by simp [hpending]) stack hstack
  obtain rfl : e = e' := Option.some.inj (Option.some.inj (he.symm.trans he'))
  exact ⟨i, stack, after, hi, ht, (valid_transfer ht hi (hsound.valid n stack hstack)).1⟩

end Jvm.Flow
