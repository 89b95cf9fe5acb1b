import Jvm.Proofs.Flow.Acceptance

/-!
# Typable code

A stack seen by its words only: `Shape` follows the paths of a code with the words of the entries, and the code
is `Typable` if on no path an operand is missing, the stack is too small or control leaves the body, and all
paths to an instruction bring the same words. `analyze_iff_typable` says that the bodies with typable code are
the accepted ones, in whichever order the instructions are visited, and that exactly the instructions that some
path reaches have an entry.

The orders are those of `Search`, which visits any pending instruction next. The invariant of every search is
`Progress.Ongoing`; in typable code no visit fails, as each known stack belongs to some trace.
-/

namespace Jvm

instance : HasWidth Width := ⟨id⟩

/-- The words of the stack after an instruction. -/
def Instruction.shape? (i : Instruction) (words : List Width) : Option (List Width) :=
  i.stackEffect?.bind fun effect => (effect.run? Pushed.width words).map Prod.snd

namespace Flow

variable {owner : String} {code : Array Instruction}

/-- A path, and the words of the entries that are on the stack where it ends, top first. -/
inductive Shape (code : Array Instruction) : List Nat → Nat → List Width → Prop where
  | start : 0 < code.size → Shape code [] 0 []
  | branch {path : List Nat} {n m : Nat} {i : Instruction} {words after : List Width} :
      Shape code path n words → code[n]? = some i → i.shape? words = some after → m ∈ i.targets →
      Shape code (n :: path) m after
  | next {path : List Nat} {n : Nat} {i : Instruction} {words after : List Width} :
      Shape code path n words → code[n]? = some i → i.shape? words = some after → i.fallsThrough = true →
      Shape code (n :: path) (n + 1) (i.fallen after)

/-- No path goes wrong, and all paths to an instruction bring the same words. -/
structure Typable (code : Array Instruction) : Prop where
  /-- Control stays inside. -/
  inside : ∀ path n words, Shape code path n words → n < code.size
  /-- The operand is one that the opcode needs, and its descriptor can be read. -/
  operand : ∀ path n words i, Shape code path n words → code[n]? = some i → i.stackEffect?.isSome = true
  /-- There are enough entries, and none is split. -/
  enough : ∀ path n words i effect, Shape code path n words → code[n]? = some i →
    i.stackEffect? = some effect → (effect.run? Pushed.width words).isSome = true
  agrees : ∀ path path' n words words', Shape code path n words → Shape code path' n words' → words = words'

/-! ### Words and tagged operands -/

/-- The entry is of the given words. -/
abbrev OfWidth (w : Width) (x : Tagged) : Prop := w = x.value.width

theorem forall₂_ofWidth {words : List Width} {σ : List Tagged} :
    List.Forall₂ OfWidth words σ ↔ words = σ.map width := by
  rw [← List.forall₂_eq_eq_eq, List.forall₂_map_right_iff]
  rfl

/-- An effect has the same words on operands and on their words. -/
theorem symbolic_of_shape {i : Instruction} {n : Nat} {words after : List Width} {σ : List Tagged}
    (h : i.shape? words = some after) (hσ : List.Forall₂ OfWidth words σ) :
    ∃ taken τ, i.symbolic? n σ = some (taken, τ) ∧ List.Forall₂ OfWidth after τ := by
  obtain ⟨effect, heffect, hmap⟩ := Option.bind_eq_some_iff.1 h
  obtain ⟨⟨taken, _⟩, hrun, rfl⟩ := Option.map_eq_some_iff.1 hmap
  have hpushed (p : Pushed) : OfWidth p.width (Tagged.mk n p) := rfl
  obtain ⟨taken', τ, hx, -, hτ⟩ := StackEffect.run?_rel (R := OfWidth) (fun _ _ h => h) (fun p _ => hpushed p) hσ hrun
  exact ⟨taken', τ, by rw [Instruction.symbolic?, heffect, Option.bind_some, hx], hτ⟩

theorem shape_of_symbolic {i : Instruction} {n : Nat} {words : List Width} {σ taken τ : List Tagged}
    (h : i.symbolic? n σ = some (taken, τ)) (hσ : List.Forall₂ OfWidth words σ) :
    ∃ after, i.shape? words = some after ∧ List.Forall₂ OfWidth after τ := by
  obtain ⟨effect, heffect, hrun⟩ := Option.bind_eq_some_iff.1 h
  have hpushed (p : Pushed) : OfWidth p.width (Tagged.mk n p) := rfl
  obtain ⟨taken', after, hx, -, hafter⟩ := StackEffect.run?_rel (R := fun x w => OfWidth w x) (fun _ _ h => h.symm)
    (fun p _ => hpushed p) hσ.flip hrun
  exact ⟨after, by rw [Instruction.shape?, heffect, Option.bind_some, hx, Option.map_some], hafter.flip⟩

theorem trace_of_shape {path : List Nat} {n : Nat} {words : List Width} (h : Shape code path n words) :
    ∃ σ, Trace code path n σ ∧ List.Forall₂ OfWidth words σ := by
  induction h with
  | start hpos => exact ⟨[], .start hpos, .nil⟩
  | branch _ hi hx hm ih =>
    obtain ⟨σ, hσ, hwords⟩ := ih
    obtain ⟨taken, τ, hsymbolic, hτ⟩ := symbolic_of_shape hx hwords
    exact ⟨τ, .branch hσ hi hsymbolic hm, hτ⟩
  | next _ hi hx hfalls ih =>
    obtain ⟨σ, hσ, hwords⟩ := ih
    obtain ⟨taken, τ, hsymbolic, hτ⟩ := symbolic_of_shape hx hwords
    exact ⟨_, .next hσ hi hsymbolic hfalls, forall₂_fallen hτ⟩

theorem shape_of_trace {path : List Nat} {n : Nat} {σ : List Tagged} (h : Trace code path n σ) :
    ∃ words, Shape code path n words ∧ List.Forall₂ OfWidth words σ := by
  induction h with
  | start hpos => exact ⟨[], .start hpos, .nil⟩
  | branch _ hi hx hm ih =>
    obtain ⟨words, hwords, hσ⟩ := ih
    obtain ⟨after, hshape, hafter⟩ := shape_of_symbolic hx hσ
    exact ⟨after, .branch hwords hi hshape hm, hafter⟩
  | next _ hi hx hfalls ih =>
    obtain ⟨words, hwords, hσ⟩ := ih
    obtain ⟨after, hshape, hafter⟩ := shape_of_symbolic hx hσ
    exact ⟨_, .next hwords hi hshape hfalls, forall₂_fallen hafter⟩

/-- An instruction that a path reaches in typable code has an effect on what the path brings. -/
theorem Typable.exists_shape (h : Typable code) {path : List Nat} {n : Nat} {words : List Width}
    (hwords : Shape code path n words) : ∃ i after, code[n]? = some i ∧ i.shape? words = some after := by
  have hi := Array.getElem?_eq_getElem (h.inside path n words hwords)
  obtain ⟨effect, heffect⟩ := Option.isSome_iff_exists.1 (h.operand path n words _ hwords hi)
  obtain ⟨⟨taken, after⟩, hrun⟩ := Option.isSome_iff_exists.1 (h.enough path n words _ effect hwords hi heffect)
  exact ⟨_, after, hi, by rw [Instruction.shape?, heffect, Option.bind_some, hrun, Option.map_some]⟩

/-- It makes no difference whether operands are followed or their words only. -/
theorem typable_iff_steady : Typable code ↔ Steady code := by
  constructor
  · refine fun h => ⟨fun path n σ hσ => ?_, fun path path' n σ τ hσ hτ => ?_⟩
    · obtain ⟨words, hwords, hof⟩ := shape_of_trace hσ
      obtain ⟨i, after, hi, hshape⟩ := h.exists_shape hwords
      obtain ⟨taken, τ, hsymbolic, -⟩ := symbolic_of_shape hshape hof
      exact ⟨i, taken, τ, hi, hsymbolic⟩
    · obtain ⟨words, hwords, hof⟩ := shape_of_trace hσ
      obtain ⟨words', hwords', hof'⟩ := shape_of_trace hτ
      rw [← forall₂_ofWidth.1 hof, ← forall₂_ofWidth.1 hof']
      exact h.agrees _ _ _ _ _ hwords hwords'
  · intro h
    -- where a path ends, symbolic execution goes on, so that the words can be followed, too
    have hruns : ∀ path n words, Shape code path n words →
        ∃ i after, code[n]? = some i ∧ i.shape? words = some after := by
      intro path n words hwords
      obtain ⟨σ, hσ, hof⟩ := trace_of_shape hwords
      obtain ⟨i, taken, τ, hi, hsymbolic⟩ := h.runs path n σ hσ
      obtain ⟨after, hshape, -⟩ := shape_of_symbolic hsymbolic hof
      exact ⟨i, after, hi, hshape⟩
    refine ⟨fun path n words hwords => ?_, fun path n words i hwords hi => ?_,
      fun path n words i effect hwords hi heffect => ?_, fun path path' n words words' hwords hwords' => ?_⟩
    · obtain ⟨i, -, hi, -⟩ := hruns path n words hwords
      exact (Array.getElem?_eq_some_iff.1 hi).1
    · obtain ⟨j, after, hj, hshape⟩ := hruns path n words hwords
      obtain rfl := Option.some.inj (hi.symm.trans hj)
      obtain ⟨effect, heffect, -⟩ := Option.bind_eq_some_iff.1 hshape
      exact Option.isSome_of_eq_some heffect
    · obtain ⟨j, after, hj, hshape⟩ := hruns path n words hwords
      obtain rfl := Option.some.inj (hi.symm.trans hj)
      obtain ⟨effect', heffect', hrun⟩ := Option.bind_eq_some_iff.1 hshape
      obtain rfl := Option.some.inj (heffect.symm.trans heffect')
      obtain ⟨r, hr, -⟩ := Option.map_eq_some_iff.1 hrun
      exact Option.isSome_of_eq_some hr
    · obtain ⟨σ, hσ, hof⟩ := trace_of_shape hwords
      obtain ⟨τ, hτ, hof'⟩ := trace_of_shape hwords'
      rw [forall₂_ofWidth.1 hof, forall₂_ofWidth.1 hof']
      exact h.agrees _ _ _ _ _ hσ hτ

/-! ### Searches in any order -/

/-- Visits some pending instruction. -/
def visitPending (owner : String) (code : Array Instruction) (n : Nat) (p : Progress) :
    Except FlowError Progress :=
  visit owner code n { p with pending := p.pending.erase n }

theorem visitPending_first {p : Progress} {n : Nat} {rest : List Nat} (h : p.pending = n :: rest) :
    visit owner code n { p with pending := rest } = visitPending owner code n p := by
  rw [visitPending, h, List.erase_cons_head]

/-- A visit of any pending instruction leads from `p` to `q`. -/
def Visits (owner : String) (code : Array Instruction) (p q : Progress) : Prop :=
  ∃ n ∈ p.pending, visitPending owner code n p = .ok q

/-- A search that visits pending instructions in some order, and how it ends. -/
inductive Search (owner : String) (code : Array Instruction) : Progress → Except FlowError Progress → Prop where
  | done {p : Progress} : p.pending = [] → Search owner code p (.ok p)
  | fails {p : Progress} {n : Nat} {e : FlowError} :
      n ∈ p.pending → visitPending owner code n p = .error e → Search owner code p (.error e)
  | visits {p q : Progress} {r : Except FlowError Progress} :
      Visits owner code p q → Search owner code q r → Search owner code p r

/-- What holds between the visits of every search. -/
structure Progress.Ongoing (owner : String) (code : Array Instruction) (p : Progress) : Prop where
  sound : p.Sound owner code
  fits : p.Fits code.size

theorem pos_of_start {n : Nat} {stack : List Frame} (h : (Progress.start code.size).at? n = some stack) :
    0 < code.size := by
  by_contra hpos
  rw [Nat.eq_zero_of_not_pos hpos] at h
  simp [Progress.start, Progress.at?] at h

theorem ongoing_start : (Progress.start code.size).Ongoing owner code :=
  ⟨sound_start, by simp [Progress.start],
    fun n stack h => (fits_start (pos_of_start h)).within n stack h,
    fun n stack h => (fits_start (pos_of_start h)).depth n stack h⟩

theorem followed_start : (Progress.start code.size).Followed code := by
  intro n stack h
  obtain ⟨rfl, rfl⟩ := at?_start h
  exact ⟨[], [], .start (pos_of_start h), .nil⟩

/-- The invariants do not depend on the order in which instructions are pending. -/
theorem Progress.Ongoing.reorder {p : Progress} (h : p.Ongoing owner code) {n : Nat} (hn : n ∈ p.pending) :
    Progress.Ongoing owner code { p with pending := n :: p.pending.erase n } ∧
      Progress.measure { p with pending := n :: p.pending.erase n } code.size = p.measure code.size := by
  have hperm := List.perm_cons_erase hn
  refine ⟨⟨⟨h.sound.incoming, h.sound.entries, h.sound.start, h.sound.valid, h.sound.reached, fun m hm => ?_⟩,
    ⟨h.fits.incoming, h.fits.within, h.fits.depth⟩⟩, ?_⟩
  · exact h.sound.settled m fun hmem => hm (hperm.mem_iff.1 hmem)
  · rw [Progress.measure, Progress.measure, ← hperm.length_eq]

/-- A visit keeps the invariants and leaves less to visit. -/
theorem ongoing_visits {p q : Progress} (h : p.Ongoing owner code) (hq : Visits owner code p q) :
    q.Ongoing owner code ∧ q.measure code.size < p.measure code.size := by
  obtain ⟨n, hn, hq⟩ := hq
  obtain ⟨h', hmeasure⟩ := h.reorder hn
  obtain ⟨hfits, hless⟩ := measure_visit h'.sound h'.fits rfl hq
  exact ⟨⟨sound_visit h'.sound rfl hq, hfits⟩, hmeasure ▸ hless⟩

/-- No order makes a search go on for ever. -/
theorem acc_visits {p : Progress} (h : p.Ongoing owner code) : Acc (fun q p => Visits owner code p q) p := by
  induction hm : p.measure code.size using Nat.strong_induction_on generalizing p with
  | _ m ih =>
    refine ⟨p, fun q hq => ?_⟩
    obtain ⟨hongoing, hless⟩ := ongoing_visits h hq
    exact ih _ (hm ▸ hless) hongoing rfl

/-- In steady code every pending instruction can be visited. -/
theorem exists_visitPending (hcode : Steady code) {p : Progress} (h : p.Ongoing owner code)
    (hp : p.Followed code) (n : Nat) : ∃ q, visitPending owner code n p = .ok q ∧ q.Followed code :=
  exists_visit owner n (p := { p with pending := p.pending.erase n }) hcode h.fits.incoming hp

/-- A search of steady code succeeds, and what it knows in the end are stacks of traces. -/
theorem search_of_steady (hcode : Steady code) {p : Progress} {r : Except FlowError Progress}
    (hr : Search owner code p r) (h : p.Ongoing owner code) (hp : p.Followed code) :
    ∃ q, r = .ok q ∧ q.Ongoing owner code ∧ q.pending = [] ∧ q.Followed code := by
  induction hr with
  | done hpending => exact ⟨_, rfl, h, hpending, hp⟩
  | @fails p n e _ he =>
    obtain ⟨q, hq, -⟩ := exists_visitPending hcode h hp n
    cases he.symm.trans hq
  | visits hvisits _ ih =>
    obtain ⟨n, -, hq⟩ := id hvisits
    obtain ⟨q', hq', hfollowed⟩ := exists_visitPending hcode h hp n
    obtain rfl := Except.ok.inj (hq.symm.trans hq')
    exact ih (ongoing_visits h hvisits).1 hfollowed

/-- A search that succeeds ends where everything is settled. -/
theorem settled_of_search {p : Progress} {r : Except FlowError Progress} (hr : Search owner code p r)
    (h : p.Ongoing owner code) : ∀ q, r = .ok q → q.Ongoing owner code ∧ q.pending = [] := by
  induction hr with
  | done hpending =>
    rintro q hq
    cases hq
    exact ⟨h, hpending⟩
  | fails => nofun
  | visits hvisits _ ih => exact ih (ongoing_visits h hvisits).1

/-- Where a search has ended, an instruction has an entry exactly if some path reaches it. -/
theorem entry_iff_path {p : Progress} (h : p.Sound owner code) (hp : p.pending = [])
    (hfollowed : p.Followed code) (n : Nat) :
    (∃ e, p.entries[n]? = some (some e)) ↔ ∃ path, Path code path n := by
  constructor
  · rintro ⟨e, he⟩
    obtain ⟨stack, hstack⟩ := h.reached n e he
    obtain ⟨path, σ, hσ, -⟩ := hfollowed n stack hstack
    exact ⟨path, hσ.path⟩
  · rintro ⟨path, hpath⟩
    obtain ⟨σ, hσ⟩ := exists_trace h hp hpath
    obtain ⟨known, hk, -⟩ := Progress.knows_trace h hp hσ
    obtain ⟨i, e, after, -, -, he, -⟩ := h.settled n (by simp [hp]) known hk
    exact ⟨e, he⟩

/-! ### The search of the analysis -/

/-- The analysis visits the pending instruction that comes first. -/
theorem search_iterate {fuel : Nat} {p : Progress} (h : p.Ongoing owner code) (hfuel : p.measure code.size < fuel) :
    Search owner code p (iterate owner code fuel p) := by
  induction fuel generalizing p with
  | zero => omega
  | succ fuel ih =>
    rw [iterate]
    split
    · rename_i hpending
      exact .done hpending
    · rename_i n rest hpending
      have hn : n ∈ p.pending := hpending ▸ List.mem_cons_self
      rw [visitPending_first hpending]
      split
      · rename_i e he
        exact .fails hn he
      · rename_i q hq
        obtain ⟨hongoing, hless⟩ := ongoing_visits h ⟨n, hn, hq⟩
        exact .visits ⟨n, hn, hq⟩ (ih hongoing (by omega))

theorem search_solve (owner : String) (b : MethodBody) :
    Search owner b.instructions (.start b.size) (solve owner b) := by
  rw [solve]
  split
  · -- without instructions there is nothing to learn where the search starts
    rename_i hsize
    have hnone : b.instructions = #[] := Array.size_eq_zero_iff.1 hsize
    rw [hsize, hnone]
    exact .visits ⟨0, List.mem_cons_self, rfl⟩ (.done rfl)
  · rename_i hsize
    exact search_iterate ongoing_start measure_start

/-! ### What every search comes to -/

/-- A search succeeds exactly on typable code, and an instruction has an entry in the end exactly if some path
reaches it. -/
structure Decides (code : Array Instruction) (r : Except FlowError Progress) : Prop where
  accepts : (∃ q, r = .ok q) ↔ Typable code
  reached : ∀ q, r = .ok q → ∀ n, (∃ e, q.entries[n]? = some (some e)) ↔ ∃ path, Path code path n

theorem decides_search {r : Except FlowError Progress} (hr : Search owner code (.start code.size) r) :
    Decides code r := by
  have hsettled := settled_of_search hr ongoing_start
  have hsteady : ∀ q, r = .ok q → Steady code := fun q hq =>
    steady_of_settled (hsettled q hq).1.sound (hsettled q hq).2
  refine ⟨⟨fun ⟨q, hq⟩ => typable_iff_steady.2 (hsteady q hq), fun htypable => ?_⟩, fun q hq n => ?_⟩
  · obtain ⟨q, hq, -⟩ := search_of_steady (typable_iff_steady.1 htypable) hr ongoing_start followed_start
    exact ⟨q, hq⟩
  · obtain ⟨q', hq', hongoing, hpending, hfollowed⟩ :=
      search_of_steady (hsteady q hq) hr ongoing_start followed_start
    obtain rfl := Except.ok.inj (hq.symm.trans hq')
    exact entry_iff_path hongoing.sound hpending hfollowed n

/-- The analysis accepts exactly the bodies with typable code, and then the instructions that have an entry are
those that some path reaches. It is one of many searches, which come to the same and to an end whichever
pending instruction they visit next. -/
theorem analyze_iff_typable (owner : String) (b : MethodBody) :
    ((∃ a, analyze owner b = .ok a) ↔ Typable b.instructions) ∧
    (∀ a, analyze owner b = .ok a → ∀ n, a.isReachable n = true ↔ ∃ path, Path b.instructions path n) ∧
    Search owner b.instructions (.start b.size) (solve owner b) ∧
    (∀ r, Search owner b.instructions (.start b.size) r → Decides b.instructions r) ∧
    Acc (fun q p => Visits owner b.instructions p q) (.start b.size) := by
  have hsolve := search_solve owner b
  have hdecides : Decides b.instructions (solve owner b) := decides_search hsolve
  refine ⟨?_, fun a ha n => ?_, hsolve, fun r => decides_search, acc_visits ongoing_start⟩
  · rw [← hdecides.accepts, analyze]
    cases solve owner b <;> simp [Except.map]
  · rw [analyze] at ha
    cases hq : solve owner b with
    | error e => rw [hq] at ha; cases ha
    | ok q =>
      rw [hq] at ha
      cases ha
      rw [← hdecides.reached q hq n, Analysis.isReachable, Analysis.entry?, Option.isSome_iff_exists]
      simp only [Option.join_eq_some_iff]

end Flow

end Jvm
