import Jvm.Proofs.Flow.FixedPoint

/-!
# The analysis is right on every path

`Path` follows targets and fall-throughs from the first instruction. `Trace` carries a stack of tagged
operands along: a new one is tagged by the instruction that made it, and copies and exchanges move
tags. In `analyze_sound` the body is one that the analysis accepts: then every path has a trace, each
instruction on it has an entry, and the entry's frames describe the operands that the instruction takes.

The invariant of a trace is `Progress.knows_trace`: what the fixed point knows at an instruction holds
of the stack that any trace brings there.
-/

namespace Jvm

/-- An operand of symbolic execution: the instruction that made it, and what it made. -/
structure Tagged where
  source : Nat
  value : Pushed
deriving DecidableEq

instance : HasWidth Tagged := ⟨fun x => x.value.width⟩

/-- The operands that the instruction at `n` takes, bottom first, and the stack after it. -/
def Instruction.symbolic? (i : Instruction) (n : Nat) (stack : List Tagged) :
    Option (List Tagged × List Tagged) :=
  i.stackEffect?.bind fun effect => effect.run? (Tagged.mk n) stack

/-- What falls through: the address that `jsr` pushes is for its subroutine only. -/
def Instruction.fallen {α : Type} (i : Instruction) (stack : List α) : List α :=
  if i.opcode = .jsr then stack.drop 1 else stack

/-- Control comes to an instruction over others, the last first. -/
inductive Path (code : Array Instruction) : List Nat → Nat → Prop where
  | start : 0 < code.size → Path code [] 0
  | branch {path : List Nat} {n m : Nat} {i : Instruction} :
      Path code path n → code[n]? = some i → m ∈ i.targets → Path code (n :: path) m
  | next {path : List Nat} {n : Nat} {i : Instruction} :
      Path code path n → code[n]? = some i → i.fallsThrough = true → Path code (n :: path) (n + 1)

/-- A path, and the stack of operands where it ends. -/
inductive Trace (code : Array Instruction) : List Nat → Nat → List Tagged → Prop where
  | start : 0 < code.size → Trace code [] 0 []
  | branch {path : List Nat} {n m : Nat} {i : Instruction} {stack taken after : List Tagged} :
      Trace code path n stack → code[n]? = some i → i.symbolic? n stack = some (taken, after) →
      m ∈ i.targets → Trace code (n :: path) m after
  | next {path : List Nat} {n : Nat} {i : Instruction} {stack taken after : List Tagged} :
      Trace code path n stack → code[n]? = some i → i.symbolic? n stack = some (taken, after) →
      i.fallsThrough = true → Trace code (n :: path) (n + 1) (i.fallen after)

theorem Trace.path {code : Array Instruction} {path : List Nat} {n : Nat} {σ : List Tagged}
    (h : Trace code path n σ) : Path code path n := by
  induction h with
  | start hpos => exact .start hpos
  | branch _ hi _ hm ih => exact .branch ih hi hm
  | next _ hi _ hf ih => exact .next ih hi hf

namespace Frame

variable {code : Array Instruction} {f g : Frame} {x : Tagged}

/-- What a frame says of an operand that is taken. -/
structure Describes (code : Array Instruction) (f : Frame) (x : Tagged) : Prop where
  mayComeFrom : f.mayComeFrom x.source = true
  source : f.isUnknown = false → f.source? = some x.source
  literal : ∀ c n, f = .literal c n →
    x.source = n ∧ x.value.constant? = some c ∧ code[n]?.bind Instruction.loaded? = some c

/-- The frame is right of the operand. -/
structure Holds (code : Array Instruction) (f : Frame) (x : Tagged) : Prop where
  valid : f.Valid code
  width : f.width = x.value.width
  origin : x.source ∈ f.origins
  known : f.isUnknown = false → f.source? = some x.source ∧ f.constant? = x.value.constant?

theorem Holds.describes (h : f.Holds code x) : f.Describes code x := by
  refine ⟨(mayComeFrom_iff h.valid.sorted).2 h.origin, fun hu => (h.known hu).1, ?_⟩
  rintro c n rfl
  obtain ⟨hs, hc⟩ := h.known rfl
  exact ⟨(Option.some.inj hs).symm, hc.symm, h.valid.loaded c n rfl⟩

/-- A frame that knows no more is right, too. -/
theorem Covers.holds (h : g.Covers f) (hg : g.Valid code) (hx : f.Holds code x) : g.Holds code x := by
  refine ⟨hg, h.width.trans hx.width, h.origins _ hx.origin, fun hu => ?_⟩
  obtain ⟨hs, hc⟩ := h.known hu
  have hf : f.isUnknown = false := by
    rw [Bool.eq_false_iff, Ne, isUnknown_iff, ← hs, ← isUnknown_iff, hu]
    simp
  exact ⟨hs.trans (hx.known hf).1, hc.trans (hx.known hf).2⟩

theorem holds_of {n : Nat} {i : Instruction} {p : Pushed} (hf : f.Of n p) (hi : code[n]? = some i)
    (hp : p.constant? = i.loaded?) : f.Holds code ⟨n, p⟩ := by
  refine ⟨valid_of_source hf.source fun c hc => ?_, hf.width, ?_, fun _ => ⟨hf.source, hf.constant⟩⟩
  · rw [hi, Option.bind_some, ← hp, ← hf.constant, hc]
  · rw [origins_of_source hf.source]
    exact List.mem_singleton_self n

end Frame

namespace Flow

variable {owner : String} {code : Array Instruction} {p : Progress}

/-- What holds of the frames of a stack holds of frames that know no more. -/
theorem forall₂_covers {α : Type} {R : Frame → α → Prop} {known stack : List Frame} {σ : List α}
    (hR : ∀ k ∈ known, ∀ f x, k.Covers f → R f x → R k x) (h : StackCovers known stack)
    (hσ : List.Forall₂ R stack σ) : List.Forall₂ R known σ := by
  induction h generalizing σ with
  | nil => exact hσ
  | cons hc _ ih =>
    cases hσ with
    | cons hx hσ =>
      exact .cons (hR _ List.mem_cons_self _ _ hc hx)
        (ih (fun k hk => hR k (List.mem_cons_of_mem _ hk)) hσ)

theorem covers_delivered (n m : Nat) (s : List Frame) : StackCovers (Progress.delivered n m s) s := by
  rw [Progress.delivered]
  split
  · exact List.forall₂_map_left_iff.2 (List.forall₂_same.2 fun f _ => f.covers_forget)
  · exact .refl s

/-- The effect of an instruction at which a stack is known, and what is known after it. -/
theorem settled_at (h : p.Sound owner code) {n : Nat} (hn : n ∉ p.pending) {known : List Frame}
    (hk : p.at? n = some known) : ∃ i e after effect make,
      code[n]? = some i ∧ p.entries[n]? = some (some e) ∧ i.stackEffect? = some effect ∧
      effect.run? make known = some (e.consumed, after) ∧
      (∀ q, effect.pushed? = some q → (make q).Of n q) ∧
      ∀ m s, (m, s) ∈ successors n i after → ∃ known', p.at? m = some known' ∧ StackCovers known' s := by
  obtain ⟨i, e, after, hi, ht, he, hsucc⟩ := h.settled n hn known hk
  obtain ⟨effect, make, heffect, hrun, hmake⟩ := transfer_follows ht
  refine ⟨i, e, after, effect, make, hi, he, heffect, hrun, hmake, fun m s hm => ?_⟩
  obtain ⟨known', hk', hc⟩ := hsucc m s hm
  exact ⟨known', hk', hc.trans (covers_delivered n m s)⟩

/-- One step: the entry describes what is taken, and what the successors know holds of the new stack. -/
theorem holds_step {n : Nat} {i : Instruction} {known : List Frame} {σ : List Tagged}
    (h : p.Sound owner code) (hn : n ∉ p.pending) (hk : p.at? n = some known) (hi : code[n]? = some i)
    (hσ : List.Forall₂ (Frame.Holds code) known σ) :
    ∃ e after taken τ, p.entries[n]? = some (some e) ∧ i.symbolic? n σ = some (taken, τ) ∧
      List.Forall₂ (Frame.Holds code) e.consumed taken ∧ List.Forall₂ (Frame.Holds code) after τ ∧
      ∀ m s ρ, (m, s) ∈ successors n i after → List.Forall₂ (Frame.Holds code) s ρ →
        ∃ known', p.at? m = some known' ∧ List.Forall₂ (Frame.Holds code) known' ρ := by
  obtain ⟨j, e, after, effect, make, hj, he, heffect, hrun, hmake, hsucc⟩ := settled_at h hn hk
  obtain rfl : i = j := Option.some.inj (hi.symm.trans hj)
  obtain ⟨taken, τ, hx, htaken, hτ⟩ := StackEffect.run?_rel (fun _ _ hf => hf.width)
    (fun q hq => Frame.holds_of (hmake q hq) hi (Instruction.constant_of_pushed heffect hq)) hσ hrun
  refine ⟨e, after, taken, τ, he, by rw [Instruction.symbolic?, heffect, Option.bind_some, hx], htaken, hτ,
    fun m s ρ hm hρ => ?_⟩
  obtain ⟨known', hk', hc⟩ := hsucc m s hm
  have hvalid := h.valid m known' hk'
  exact ⟨known', hk', forall₂_covers (fun k hk _ _ hc hx => hc.holds (hvalid k hk) hx) hc hρ⟩

theorem mem_successors_target {n m : Nat} {i : Instruction} {stack : List Frame} (h : m ∈ i.targets) :
    (m, stack) ∈ successors n i stack :=
  List.mem_append_left _ (List.mem_map_of_mem h)

theorem mem_successors_next {n : Nat} {i : Instruction} {stack : List Frame}
    (h : i.fallsThrough = true) : (n + 1, i.fallen stack) ∈ successors n i stack := by
  simp [successors, h, Instruction.fallen]

theorem forall₂_fallen {α β : Type} {R : α → β → Prop} {i : Instruction} {σ : List α} {τ : List β}
    (h : List.Forall₂ R σ τ) : List.Forall₂ R (i.fallen σ) (i.fallen τ) := by
  rw [Instruction.fallen, Instruction.fallen]
  split
  · exact List.forall₂_drop 1 h
  · exact h

/-- At the end of every trace the fixed point knows a stack that holds of the operands. -/
theorem Progress.knows_trace (h : p.Sound owner code) (hp : p.pending = []) {path : List Nat} {n : Nat}
    {σ : List Tagged} (ht : Trace code path n σ) :
    ∃ known, p.at? n = some known ∧ List.Forall₂ (Frame.Holds code) known σ := by
  induction ht with
  | start hpos => exact ⟨[], h.start hpos, .nil⟩
  | branch _ hi hs hm ih =>
    obtain ⟨known, hk, hσ⟩ := ih
    obtain ⟨e, after, taken, τ, -, hx, -, hτ, hsucc⟩ := holds_step h (by simp [hp]) hk hi hσ
    obtain ⟨rfl, rfl⟩ := Prod.mk.inj (Option.some.inj (hs.symm.trans hx))
    exact hsucc _ _ _ (mem_successors_target hm) hτ
  | next _ hi hs hf ih =>
    obtain ⟨known, hk, hσ⟩ := ih
    obtain ⟨e, after, taken, τ, -, hx, -, hτ, hsucc⟩ := holds_step h (by simp [hp]) hk hi hσ
    obtain ⟨rfl, rfl⟩ := Prod.mk.inj (Option.some.inj (hs.symm.trans hx))
    exact hsucc _ _ _ (mem_successors_next hf) (forall₂_fallen hτ)

theorem Progress.at?_lt (h : p.Sound owner code) {n : Nat} {known : List Frame}
    (hk : p.at? n = some known) : ∃ i, code[n]? = some i := by
  have hlt : n < code.size := by
    rw [← h.incoming]
    by_contra hge
    simp [Progress.at?, Array.getElem?_eq_none (Nat.le_of_not_lt hge)] at hk
  exact ⟨code[n], Array.getElem?_eq_getElem hlt⟩

/-- Every path can be carried out symbolically. -/
theorem exists_trace (h : p.Sound owner code) (hp : p.pending = []) {path : List Nat} {n : Nat}
    (ht : Path code path n) : ∃ σ, Trace code path n σ := by
  induction ht with
  | start hpos => exact ⟨[], .start hpos⟩
  | branch _ hi hm ih =>
    obtain ⟨σ, hσ⟩ := ih
    obtain ⟨known, hk, hhold⟩ := Progress.knows_trace h hp hσ
    obtain ⟨e, after, taken, τ, -, hx, -⟩ := holds_step h (by simp [hp]) hk hi hhold
    exact ⟨τ, .branch hσ hi hx hm⟩
  | next _ hi hf ih =>
    obtain ⟨σ, hσ⟩ := ih
    obtain ⟨known, hk, hhold⟩ := Progress.knows_trace h hp hσ
    obtain ⟨e, after, taken, τ, -, hx, -⟩ := holds_step h (by simp [hp]) hk hi hhold
    exact ⟨_, .next hσ hi hx hf⟩

/-! ### Accepted bodies -/

section Accepted

variable {b : MethodBody} {a : Analysis} {path : List Nat} {n : Nat} {σ : List Tagged}

theorem exists_trace_of_analyze (h : analyze owner b = .ok a) (hp : Path b.instructions path n) :
    ∃ σ, Trace b.instructions path n σ := by
  obtain ⟨p, -, hsound, hpending⟩ := sound_analyze h
  exact exists_trace hsound hpending hp

theorem describes_of_analyze (h : analyze owner b = .ok a) (ht : Trace b.instructions path n σ) :
    ∃ i e taken after, b.instructions[n]? = some i ∧ a.entry? n = some e ∧
      i.symbolic? n σ = some (taken, after) ∧ List.Forall₂ (Frame.Describes b.instructions) e.consumed taken := by
  obtain ⟨p, rfl, hsound, hpending⟩ := sound_analyze h
  obtain ⟨known, hk, hσ⟩ := Progress.knows_trace hsound hpending ht
  obtain ⟨i, hi⟩ := Progress.at?_lt hsound hk
  obtain ⟨e, after, taken, τ, he, hx, htaken, -⟩ := holds_step hsound (by simp [hpending]) hk hi hσ
  exact ⟨i, e, taken, τ, hi, by rw [Analysis.entry?, he, Option.join_some], hx,
    htaken.imp fun _ _ => Frame.Holds.describes⟩

end Accepted

/-- Symbolic execution gets stuck on no path of an accepted body, and at the end of every trace the
entry is there and describes, operand by operand, what the instruction takes. -/
theorem analyze_sound {b : MethodBody} {a : Analysis} (h : analyze owner b = .ok a) :
    (∀ path n, Path b.instructions path n → ∃ σ, Trace b.instructions path n σ) ∧
    ∀ path n σ, Trace b.instructions path n σ → ∃ i e taken after,
      b.instructions[n]? = some i ∧ a.entry? n = some e ∧ i.symbolic? n σ = some (taken, after) ∧
      List.Forall₂ (Frame.Describes b.instructions) e.consumed taken :=
  ⟨fun _ _ => exists_trace_of_analyze h, fun _ _ _ => describes_of_analyze h⟩

/-- A constant that is copied and taken around a loop. -/
def copying : MethodBody :=
  { instructions :=
      #[⟨.iconst 3, .none⟩, ⟨.dup false 0, .none⟩, ⟨.ifInt .eq, .jump 1⟩, ⟨.voidReturn, .none⟩]
    maxLocals := 0 }

theorem analyze_sound_copying : ∃ a, analyze "A" copying = .ok a ∧
    (∀ path n, Path copying.instructions path n → ∃ σ, Trace copying.instructions path n σ) ∧
    ∀ path n σ, Trace copying.instructions path n σ → ∃ i e taken after,
      copying.instructions[n]? = some i ∧ a.entry? n = some e ∧ i.symbolic? n σ = some (taken, after) ∧
      List.Forall₂ (Frame.Describes copying.instructions) e.consumed taken := by
  obtain ⟨a, ha⟩ : ∃ a, analyze "A" copying = .ok a := ⟨_, rfl⟩
  exact ⟨a, ha, analyze_sound ha⟩

end Flow

end Jvm
