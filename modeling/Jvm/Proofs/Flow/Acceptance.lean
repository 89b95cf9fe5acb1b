import Jvm.Proofs.Flow.Termination
import Jvm.Proofs.Flow.Trace

/-!
# Which bodies the analysis accepts

A body is accepted exactly if its code is `Steady` (`analyze_iff_steady`): symbolic execution gets stuck on
no path, and whichever way an instruction is reached, the operands there have the same words. So what the
analysis knows of the operands, and in which order it visits the instructions, does not matter for
acceptance, and neither does the class that the body belongs to.

The search succeeds on steady code as every stack it knows has the words of some trace
(`Progress.Followed`), and it does not run out of fuel as `measure` bounds its visits.
-/

namespace Jvm.Flow

variable {owner : String} {code : Array Instruction}

/-- Symbolic execution gets stuck on no path, and all ways to an instruction bring the same words. -/
structure Steady (code : Array Instruction) : Prop where
  runs : ∀ path n σ, Trace code path n σ →
    ∃ i taken after, code[n]? = some i ∧ i.symbolic? n σ = some (taken, after)
  agrees : ∀ path path' n σ τ, Trace code path n σ → Trace code path' n τ → σ.map width = τ.map width

/-- The frames have the words of the operands. -/
abbrev SameWidths (stack : List Frame) (σ : List Tagged) : Prop :=
  List.Forall₂ (fun f x => Frame.width f = x.value.width) stack σ

theorem sameWidths_iff {stack : List Frame} {σ : List Tagged} :
    SameWidths stack σ ↔ stack.map Frame.width = σ.map width := by
  rw [← List.forall₂_eq_eq_eq, List.forall₂_map_left_iff, List.forall₂_map_right_iff]
  rfl

/-- Where everything is settled, symbolic execution goes on, and the stacks have the words of the known ones. -/
theorem steady_of_settled {p : Progress} (h : p.Sound owner code) (hp : p.pending = []) : Steady code := by
  constructor
  · intro path n σ hσ
    obtain ⟨known, hk, hheld⟩ := Progress.knows_trace h hp hσ
    obtain ⟨i, hi⟩ := Progress.at?_lt h hk
    obtain ⟨-, -, taken, τ, -, hx, -⟩ := holds_step h (by simp [hp]) hk hi hheld
    exact ⟨i, taken, τ, hi, hx⟩
  · intro path path' n σ τ hσ hτ
    obtain ⟨known, hk, hheld⟩ := Progress.knows_trace h hp hσ
    obtain ⟨known', hk', hheld'⟩ := Progress.knows_trace h hp hτ
    obtain rfl := Option.some.inj (hk.symm.trans hk')
    rw [← sameWidths_iff.1 (hheld.imp fun _ _ hx => hx.width), sameWidths_iff.1 (hheld'.imp fun _ _ hx => hx.width)]

theorem steady_of_analyze {b : MethodBody} {a : Analysis} (h : analyze owner b = .ok a) :
    Steady b.instructions := by
  obtain ⟨p, -, hsound, hpending⟩ := sound_analyze h
  exact steady_of_settled hsound hpending

/-! ### One edge -/

/-- Every stack that is known has the words of a trace. -/
def Progress.Followed (code : Array Instruction) (p : Progress) : Prop :=
  ∀ n stack, p.at? n = some stack → ∃ path σ, Trace code path n σ ∧ SameWidths stack σ

theorem followed_learn {p : Progress} {t : Nat} {s : List Frame} {path : List Nat} {σ : List Tagged}
    (h : p.Followed code) (ht : t < p.incoming.size) (htrace : Trace code path t σ) (hs : SameWidths s σ) :
    (p.learn ht s).Followed code := by
  intro n stack hn
  rw [at?_learn ht] at hn
  split at hn
  · rename_i heq
    cases hn
    exact ⟨path, σ, heq ▸ htrace, hs⟩
  · exact h n stack hn

theorem width_meet (f g : Frame) : (f.meet g).width = f.width := by
  rw [Frame.meet]
  split <;> rfl

/-- Stacks of the same words meet in one of these words. -/
theorem exists_meetStacks (owner : String) (target : Nat) {a b : List Frame}
    (h : a.map Frame.width = b.map Frame.width) :
    ∃ s, meetStacks owner target a b = .ok s ∧ s.map Frame.width = a.map Frame.width := by
  have hlength : a.length = b.length := by simpa using congrArg List.length h
  refine ⟨_, by rw [meetStacks, if_neg (not_not.2 hlength), if_neg (not_not.2 h)], ?_⟩
  rw [List.map_zipWith]
  clear h
  induction a generalizing b with
  | nil => rfl
  | cons f a ih =>
    cases b with
    | nil => cases hlength
    | cons g b => rw [List.zipWith_cons_cons, ih (Nat.succ.inj hlength), width_meet, List.map_cons]

/-- An edge that a trace takes can be followed. -/
theorem exists_follow (owner : String) (n : Nat) (opcode : Opcode) (hcode : Steady code) {t : Nat} {p : Progress}
    {s : List Frame} {path : List Nat} {σ : List Tagged} (hsize : p.incoming.size = code.size) (hp : p.Followed code)
    (htrace : Trace code path t σ) (hs : SameWidths s σ) : ∃ q, follow owner n opcode p (t, s) = .ok q ∧
      q.incoming.size = code.size ∧ q.Followed code := by
  obtain ⟨i, -, -, hi, -⟩ := hcode.runs path t σ htrace
  have ht : t < p.incoming.size := hsize ▸ (Array.getElem?_eq_some_iff.1 hi).1
  have hdelivered : (Progress.delivered n t s).map Frame.width = σ.map width := by
    rw [← sameWidths_iff.1 hs, Progress.delivered]
    split
    · rw [List.map_map]
      rfl
    · rfl
  have hlearnt : ∀ s, (p.learn ht s).incoming.size = code.size := by simpa [Progress.learn] using hsize
  rw [follow_eq ht]
  split
  · exact ⟨_, rfl, hlearnt _, followed_learn hp ht htrace (sameWidths_iff.2 hdelivered)⟩
  · rename_i known hknown
    obtain ⟨path', τ, htrace', hτ⟩ := hp t known hknown
    have hwidths : known.map Frame.width = (Progress.delivered n t s).map Frame.width := by
      rw [hdelivered, sameWidths_iff.1 hτ]
      exact hcode.agrees _ _ _ _ _ htrace' htrace
    obtain ⟨merged, hmerged, hmwidths⟩ := exists_meetStacks owner t hwidths
    rw [hmerged]
    dsimp only
    split
    · exact ⟨p, rfl, hsize, hp⟩
    · exact ⟨_, rfl, hlearnt _,
        followed_learn hp ht htrace' (sameWidths_iff.2 (hmwidths.trans (sameWidths_iff.1 hτ)))⟩

theorem exists_follow_all (owner : String) (n : Nat) (opcode : Opcode) (hcode : Steady code) {p : Progress}
    {edges : List (Nat × List Frame)} (hsize : p.incoming.size = code.size) (hp : p.Followed code)
    (hedges : ∀ edge ∈ edges, ∃ path σ, Trace code path edge.1 σ ∧ SameWidths edge.2 σ) :
    ∃ q, edges.foldlM (follow owner n opcode) p = .ok q ∧ q.Followed code := by
  induction edges generalizing p with
  | nil => exact ⟨p, rfl, hp⟩
  | cons edge edges ih =>
    obtain ⟨⟨path, σ, htrace, hs⟩, hrest⟩ := List.forall_mem_cons.1 hedges
    obtain ⟨r, hr, hrsize, hrfollowed⟩ := exists_follow owner n opcode hcode hsize hp htrace hs
    obtain ⟨q, hq, hqfollowed⟩ := ih hrsize hrfollowed hrest
    exact ⟨q, by rw [List.foldlM_cons, hr]; exact hq, hqfollowed⟩

/-! ### One visit -/

/-- An instruction that a trace comes to can be visited, and all ways on are those of traces. -/
theorem exists_transfer_traced (owner : String) (hcode : Steady code) {n : Nat} {i : Instruction} {stack : List Frame}
    {path : List Nat} {σ : List Tagged} (hi : code[n]? = some i) (htrace : Trace code path n σ)
    (hs : SameWidths stack σ) : ∃ e after, transfer owner n i stack = .ok (e, after) ∧
      ∀ edge ∈ successors n i after, ∃ path σ, Trace code path edge.1 σ ∧ SameWidths edge.2 σ := by
  obtain ⟨j, taken, τ, hj, hx⟩ := hcode.runs path n σ htrace
  obtain rfl := Option.some.inj (hi.symm.trans hj)
  obtain ⟨effect, heffect, hrun⟩ := Option.bind_eq_some_iff.1 hx
  have hsσ : List.Forall₂ (fun (x : Tagged) f => width x = Frame.width f) σ stack := hs.flip.imp fun _ _ h => h.symm
  let frame (q : Pushed) : Frame := .new "" n q.width
  obtain ⟨taken', after', hrun', -⟩ := StackEffect.run?_rel (R := fun (x : Tagged) f => width x = Frame.width f)
    (fun _ _ h => h) (fun _ _ => show _ = (frame _).width from rfl) hsσ hrun
  obtain ⟨⟨e, after⟩, htransfer⟩ := exists_transfer owner n heffect hrun'
  obtain ⟨effect', make, heffect', hrun'', hmake⟩ := transfer_follows htransfer
  obtain ⟨taken'', τ', hsymbolic, -, hafter⟩ := StackEffect.run?_rel
    (R := fun f (x : Tagged) => Frame.width f = width x) (fun _ _ h => h)
    (fun q hq => show _ = width (Tagged.mk n q) from (hmake q hq).width) hs hrun''
  obtain rfl : effect = effect' := Option.some.inj (heffect.symm.trans heffect')
  obtain ⟨rfl, rfl⟩ := Prod.mk.inj (Option.some.inj (hrun.symm.trans hsymbolic))
  refine ⟨e, after, htransfer, fun edge hedge => ?_⟩
  rcases List.mem_append.1 hedge with hedge | hedge
  · obtain ⟨t, ht, rfl⟩ := List.mem_map.1 hedge
    exact ⟨_, τ, .branch htrace hi hx ht, hafter⟩
  · split at hedge
    · rename_i hfalls
      obtain rfl := List.mem_singleton.1 hedge
      exact ⟨_, _, .next htrace hi hx hfalls, forall₂_fallen hafter⟩
    · cases hedge

theorem exists_visit (owner : String) (n : Nat) (hcode : Steady code) {p : Progress}
    (hsize : p.incoming.size = code.size) (hp : p.Followed code) :
    ∃ q, visit owner code n p = .ok q ∧ q.Followed code := by
  rw [visit]
  split
  · rename_i i stack hi hstack
    obtain ⟨path, σ, htrace, hs⟩ := hp n stack hstack
    obtain ⟨e, after, htransfer, hedges⟩ := exists_transfer_traced owner hcode hi htrace hs
    rw [htransfer]
    exact exists_follow_all owner n i.opcode hcode (by exact hsize) (by exact hp) hedges
  · exact ⟨p, rfl, hp⟩

/-! ### The whole search -/

theorem exists_iterate (hcode : Steady code) {fuel : Nat} {p : Progress} (hsound : p.Sound owner code)
    (hfits : p.Fits code.size) (hp : p.Followed code) (hfuel : p.measure code.size < fuel) :
    ∃ q, iterate owner code fuel p = .ok q := by
  induction fuel generalizing p with
  | zero => omega
  | succ fuel ih =>
    rw [iterate]
    split
    · exact ⟨p, rfl⟩
    · rename_i n rest hpending
      obtain ⟨q, hq, hfollowed⟩ := exists_visit owner n (p := { p with pending := rest }) hcode
        hfits.incoming hp
      obtain ⟨hqfits, hless⟩ := measure_visit hsound hfits hpending hq
      simp only [hq]
      exact ih (sound_visit hsound hpending hq) hqfits hfollowed (by omega)

theorem exists_analyze (owner : String) {b : MethodBody} (hcode : Steady b.instructions) :
    ∃ a, analyze owner b = .ok a := by
  rw [analyze, solve]
  split
  · exact ⟨_, rfl⟩
  · rename_i hsize
    have hpos : 0 < b.instructions.size := Nat.pos_of_ne_zero hsize
    have hfollowed : (Progress.start b.instructions.size).Followed b.instructions := by
      intro n stack hn
      obtain ⟨rfl, rfl⟩ := at?_start hn
      exact ⟨[], [], .start hpos, .nil⟩
    have hsound : (Progress.start b.instructions.size).Sound owner b.instructions := sound_start
    obtain ⟨q, hq⟩ := exists_iterate hcode hsound (fits_start hpos) hfollowed measure_start
    exact ⟨⟨q.entries⟩, by rw [show b.size = b.instructions.size from rfl, hq]; rfl⟩

/-- The analysis accepts exactly the bodies whose code is steady. -/
theorem analyze_iff_steady {b : MethodBody} : (∃ a, analyze owner b = .ok a) ↔ Steady b.instructions :=
  ⟨fun ⟨_, h⟩ => steady_of_analyze h, exists_analyze owner⟩

end Jvm.Flow
