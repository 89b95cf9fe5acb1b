import Jvm.Proofs.Machine.HandedOn
import Jvm.Proofs.Machine.Hierarchy

/-!
# What a run may use

A run counts its instructions and stops at the limit. `Exec.Metered M I P x y` says of two actions, of which the
second one has more fuel, that from a state with `I` the first one counts no instruction beyond the limit,
whether it succeeds or not, and where it succeeds the second one does the same, the methods that run are as they
were and no set-up of a class is undone (`State.Later`).

If the fuel is to be enough (`Meter.pays`), the first one is cut off only where the second one is. Fuel is paid
for by what is left of the limits: each instruction and each method that is entered takes one unit off
(`World.budget`), and between two of them there are at most the set-up of all superclasses of a class and a call
that is handed on from object to object (`World.pace`). Two things are not paid for, since they have no end:
the search for a static field in a circle of superclasses, and a call by reflection that is handed on for ever.
Where the program is one in which neither occurs (`Meter.ends`), nothing is cut off.
-/

namespace Jvm

open Exec (Any)

/-- What is left of the limits of instructions and of methods that run. -/
def World.budget (w : World) (s : State) : Nat :=
  (w.limits.instructions.toNat - s.steps) + (w.limits.callDepth - s.frames.length)

/-- The calls and set-ups that may follow each other without an instruction between them. -/
def World.pace (w : World) : Nat := w.limits.heapObjects + w.program.size + 4

/-- Every search of the method for a static field settles. -/
def Method.Settled (d : ClassDictionary) (m : Method) : Prop := m.Searches fun f => d.Settles f.name f.owner

/-- The limits of a run, whether the fuel is to be enough, and whether it is to be shown that the run ends. -/
structure Meter where
  world : World
  pays : Prop
  ends : Prop
  limited : world.limits.instructions ≠ 0
  /-- No method of the program is the one for calls by reflection, and their searches for static fields
  settle. -/
  program : ends → ∀ owner c, world.program.get? owner = some c → ∀ m ∈ c.methods,
    ¬ Library.IsInvoker owner (m.name ++ m.descriptor) ∧ m.Settled world.program

/-- The state is later than another one of a run: the same methods run, and what has been counted stays
within the limit. -/
structure State.Later (w : World) (s s' : State) : Prop where
  frames : s'.frames = s.frames
  started : ∀ n ∈ s.started, n ∈ s'.started
  steps : s.steps ≤ s'.steps
  charged : s'.steps ≤ max s.steps w.limits.instructions.toNat

namespace State.Later

variable {w : World} {s s' s'' : State}

theorem refl (s : State) : s.Later w s := ⟨rfl, fun _ h => h, Nat.le_refl _, Nat.le_max_left _ _⟩

theorem trans (h : s.Later w s') (h' : s'.Later w s'') : s.Later w s'' := by
  have hcharged := h.charged
  have hcharged' := h'.charged
  exact ⟨h'.frames.trans h.frames, fun n hn => h'.started n (h.started n hn), Nat.le_trans h.steps h'.steps,
    by omega⟩

theorem budget_le (h : s.Later w s') : w.budget s' ≤ w.budget s := by
  have hsteps := h.steps
  simp only [World.budget, h.frames]
  omega

end State.Later

namespace Meter

/-- What is known of objects and methods if the run is to end. -/
def premises (M : Meter) : Premises where
  sound := False
  reflects m := M.ends → ¬ Library.IsInvoker m.owner m.signature
  searches f := M.ends → M.world.program.Settles f.name f.owner
  writes := True

/-- If the run need not end, all objects and methods will do. -/
theorem fits_any (M : Meter) (h : ¬ M.ends) (heap : Heap) : heap.Fits M.premises :=
  ⟨fun id p _ => by cases p <;> first | trivial | exact fun hends => absurd hends h | exact nofun, nofun⟩

theorem searches_any (M : Meter) (h : ¬ M.ends) {m : Method} : m.Searches M.premises.searches :=
  fun _ _ _ _ _ _ hends => absurd hends h

theorem knows (M : Meter) : M.premises.Knows M.world := fun owner c hc m hm =>
  ⟨fun hends => (M.program hends owner c hc m hm).1,
    fun b hb i hi f hf hends => (M.program hends owner c hc m hm).2 b hb i hi f hf⟩

/-- What is known of a heap. If it is not known that the run ends, the fuel depends on how many objects there may
be. -/
structure Keeps (M : Meter) (h : Heap) : Prop where
  fits : h.Fits M.premises
  room : M.pays → ¬ M.ends → h.Proper ∧ h.limit = M.world.limits.heapObjects

theorem Keeps.leads {M : Meter} {h h' : Heap} (hk : M.Keeps h) (hfits : h'.Fits M.premises)
    (hleads : h.Leads M.premises.writes h') : M.Keeps h' where
  fits := hfits
  room hpays hends := by
    obtain ⟨hproper, hlimit⟩ := hk.room hpays hends
    exact ⟨hleads.proper hproper, hleads.lasts.limit.trans hlimit⟩

end Meter

namespace Exec

/-- From a state with `I`, the first action stays within the limits, and it is cut off only where the second one
is. -/
def Metered (M : Meter) (I : State → Prop) {α : Type} (P : α → Prop) (x y : Exec α) : Prop :=
  ∀ s, I s → M.Keeps s.heap → match x M.world s with
    | .ok a s' => y M.world s = .ok a s' ∧ P a ∧ M.Keeps s'.heap ∧ s.Later M.world s'
    | .error e s' => s'.steps ≤ max s.steps M.world.limits.instructions.toNat ∧
        (M.pays → e = .outOfFuel → ¬ M.ends ∧ ∃ t, y M.world s = .error .outOfFuel t)

end Exec

namespace Meter

variable (M : Meter)

/-- What holds of a state holds of every later one. -/
def Stable (I : State → Prop) : Prop := ∀ s s', s.Later M.world s' → I s → I s'

/-- Calls and set-ups that stay within the limits. -/
def setting (I : State → Prop) : Setting :=
  { M.premises with
    calls := Exec.Metered M I Any
    setUps := Exec.Metered M I Any }

end Meter

namespace Exec

variable {M : Meter} {I J : State → Prop} {α β : Type} {P : α → Prop} {Q : β → Prop} {x y : Exec α}

namespace Metered

theorem of_imp (h : Metered M I P x y) (hJ : ∀ s, J s → I s) : Metered M J P x y := fun s hs => h s (hJ s hs)

theorem weaken {P' : α → Prop} (h : Metered M I P x y) (hP : ∀ a, P a → P' a) : Metered M I P' x y := by
  intro s hs hk
  have hx := h s hs hk
  cases hres : x M.world s with
  | ok a s' =>
    simp only [hres] at hx
    exact ⟨hx.1, hP a hx.2.1, hx.2.2⟩
  | error e s' =>
    simp only [hres] at hx
    exact hx

theorem pure {a : α} (ha : P a) : Metered M I P (Pure.pure a) (Pure.pure a) :=
  fun s _ hk => ⟨rfl, ha, hk, .refl s⟩

theorem failWith (e : Error) : Metered M I P (Exec.failWith e) (Exec.failWith e) :=
  fun _ _ _ => ⟨Nat.le_max_left _ _, fun _ => nofun⟩

theorem fail (f : Fault) : Metered M I P (Exec.fail f) (Exec.fail f) := failWith _

theorem ofExcept (r : Except Fault α) : Metered M I Any (Exec.ofExcept r) (Exec.ofExcept r) := by
  cases r with
  | ok a => exact pure trivial
  | error f => exact fail f

/-- Where the fuel is to be enough, there is some. -/
theorem cutOff (h : ∀ s, I s → ¬ M.pays) : Metered M I P (throw .outOfFuel) y :=
  fun s hs _ => ⟨Nat.le_max_left _ _, fun hpays => absurd hpays (h s hs)⟩

/-- Two actions that are cut off, if the run need not end. -/
theorem bothCutOff (h : ¬ M.ends) : Metered M I P (throw .outOfFuel) (throw .outOfFuel) :=
  fun s _ _ => ⟨Nat.le_max_left _ _, fun _ _ => ⟨h, s, rfl⟩⟩

theorem bind {f g : α → Exec β} (hI : M.Stable I) (hx : Metered M I P x y)
    (hf : ∀ a, P a → Metered M I Q (f a) (g a)) : Metered M I Q (x >>= f) (y >>= g) := by
  intro s hs hk
  have hx := hx s hs hk
  rw [bind_apply, bind_apply]
  cases hres : x M.world s with
  | error e s' =>
    simp only [hres] at hx
    refine ⟨hx.1, fun hpays he => ?_⟩
    obtain ⟨hends, t, ht⟩ := hx.2 hpays he
    exact ⟨hends, t, by rw [ht]⟩
  | ok a s' =>
    simp only [hres] at hx
    obtain ⟨hy, ha, hk', hlater⟩ := hx
    have hf := hf a ha s' (hI s s' hlater hs) hk'
    rw [hy]
    dsimp only
    cases hres' : f a M.world s' with
    | ok b s'' =>
      simp only [hres'] at hf
      exact ⟨hf.1, hf.2.1, hf.2.2.1, hlater.trans hf.2.2.2⟩
    | error e s'' =>
      simp only [hres'] at hf
      have hcharged := hlater.charged
      exact ⟨by omega, hf.2⟩

/-- The search for a static field changes nothing. It ends if it settles, and never if it does not. -/
theorem resolveStatic {f : MemberRef} (hf : M.premises.searches f) :
    Metered M I Any (Step.resolveStatic f) (Step.resolveStatic f) := by
  have hfind : Metered M I Any (Step.findStatic M.world.program f M.world.fuel f.owner)
      (Step.findStatic M.world.program f M.world.fuel f.owner) := by
    by_cases hsettles : M.world.program.Settles f.name f.owner
    · obtain ⟨r, hr⟩ := ClassDictionary.exists_findStatic hsettles M.world.size_lt_fuel
      rw [hr]
      exact ofExcept r
    · rw [ClassDictionary.findStatic_of_not_settles hsettles]
      exact bothCutOff fun hends => hsettles (hf hends)
  exact fun s hs hk => hfind s hs hk

end Metered

/-- Whatever is built like any action stays within the limits. -/
theorem Alike.metered (hI : M.Stable I) (h : Alike (M.setting I) P x y) : Metered M I P x y := by
  induction h with
  | pure ha => exact .pure ha
  | failWith e => exact .failWith e
  | bind _ _ ihx ihf => exact ihx.bind hI ihf
  | weaken _ hP ih => exact ih.weaken hP
  | world => exact fun s _ hk => ⟨rfl, M.knows, hk, .refl s⟩
  | get _ _ ih => exact fun s hs hk => ih s hk.fits s hs hk
  | @ofHeap _ _ x f hx hf =>
    intro s hs hk
    rw [hx]
    cases hres : f s.heap with
    | error e => exact ⟨Nat.le_max_left _ _, fun _ => nofun⟩
    | ok p =>
      obtain ⟨ha, hfits', hleads⟩ := hf s.heap p.1 p.2 hk.fits hres
      exact ⟨rfl, ha, hk.leads hfits' hleads, rfl, fun _ hn => hn, Nat.le_refl _, Nat.le_max_left _ _⟩
  | clock | putStatic =>
    exact fun s _ hk => ⟨rfl, trivial, hk, rfl, fun _ hn => hn, Nat.le_refl _, Nat.le_max_left _ _⟩
  | resolveStatic hf => exact .resolveStatic hf
  | call h => exact h
  | setUp h => exact h

end Exec

/-! ### Paying for fuel -/

namespace Meter

variable (M : Meter) {fuel k : Nat}

/-- The fuel is enough for what is left of the limits and some more. -/
def Affords (k fuel : Nat) (s : State) : Prop := M.pays → M.world.budget s * M.world.pace + k ≤ fuel

/-- The fuel is enough where an instruction or a method that was entered has just been paid for. -/
def Spent (fuel : Nat) (s : State) : Prop := M.pays → (M.world.budget s + 1) * M.world.pace ≤ fuel

/-- The fuel is enough for setting up a class with all classes above it. -/
def AffordsSetUp (fuel : Nat) (s : State) : Prop :=
  M.pays → M.world.budget s * M.world.pace + (M.world.program.waiting s.started).length + 1 ≤ fuel

/-- The fuel is enough for a call, which comes to an end after it has been handed on some times. -/
def AffordsCall (chain : Chain) (fuel : Nat) (c : Call) (s : State) : Prop :=
  M.pays → ∃ n, chain.HandedOn M.world s c n ∧ M.world.budget s * M.world.pace + n + 2 ≤ fuel

theorem stable_affords : M.Stable (M.Affords k fuel) := by
  intro s s' hlater hs hpays
  have hle := Nat.mul_le_mul_right M.world.pace hlater.budget_le
  have hs := hs hpays
  omega

theorem stable_spent : M.Stable (M.Spent fuel) := by
  intro s s' hlater hs hpays
  have hle := Nat.mul_le_mul_right M.world.pace (Nat.add_le_add_right hlater.budget_le 1)
  have hs := hs hpays
  omega

theorem stable_affordsSetUp : M.Stable (M.AffordsSetUp fuel) := by
  intro s s' hlater hs hpays
  have hle := Nat.mul_le_mul_right M.world.pace hlater.budget_le
  have hwaiting := M.world.program.length_waiting_le_of_subset hlater.started
  have hs := hs hpays
  omega

variable {M} {chain : Chain} {c : Call} {s : State}

/-- What an instruction has paid for: the set-up of classes, what follows it, and a call. -/
theorem Spent.affords (h : M.Spent fuel s) : M.Affords 1 fuel s := by
  intro hpays
  have h := h hpays
  rw [Nat.succ_mul, World.pace] at h
  rw [World.pace]
  omega

theorem Spent.affordsSetUp (h : M.Spent fuel s) : M.AffordsSetUp fuel s := by
  intro hpays
  have h := h hpays
  have hle := ClassDictionary.length_waiting_le M.world.program s.started
  rw [Nat.succ_mul, World.pace] at h
  rw [World.pace]
  omega

/-- If the run is to end, a call is handed on once at most, to a method that is not the one for calls by
reflection. -/
theorem exists_handedOn (hchain : chain.Ordinary) (hk : M.Keeps s.heap) (hends : M.ends) (c : Call) :
    ∃ n ≤ 1, chain.HandedOn M.world s c n := by
  by_cases hlast : ∃ next t, chain.answer c M.world s = .ok (.handOn next) t
  swap
  · exact ⟨0, by omega, .last fun next t h => hlast ⟨next, t, h⟩⟩
  obtain ⟨next, t, hnext⟩ := hlast
  obtain rfl := Chain.state_of_handOn hchain hnext
  have hinvoke := (Library.alike_invokeMethod (E := M.setting fun _ => True) ⟨rfl, rfl⟩ c).metered
    (fun _ _ _ _ => trivial) t trivial hk
  simp only [(Chain.answer_handOn hchain hnext).2] at hinvoke
  obtain ⟨-, ⟨-, hmember⟩, -⟩ := hinvoke
  exact ⟨1, le_rfl, .next hnext (.last fun _ _ h => hmember hends (Chain.answer_handOn hchain h).1)⟩

theorem Spent.affordsCall (hchain : chain.Ordinary) (hk : M.Keeps s.heap) (h : M.Spent fuel s) {n : Nat}
    (hn : chain.HandedOn M.world s c n) : M.AffordsCall chain fuel c s := by
  intro hpays
  have h := h hpays
  have hle : n ≤ M.world.limits.heapObjects + 2 := by
    by_cases hends : M.ends
    · obtain ⟨n', hn', hhanded⟩ := exists_handedOn hchain hk hends c
      rw [hn.unique hhanded]
      omega
    · obtain ⟨hproper, hlimit⟩ := hk.room hpays hends
      have hsize := hproper.size_le
      have hn := hn.le hchain
      omega
  rw [Nat.succ_mul, World.pace] at h
  refine ⟨n, hn, ?_⟩
  rw [World.pace]
  omega

end Meter

namespace Exec.Metered

variable {M : Meter} {α : Type} {P : α → Prop} {x y : Exec α} {fuel : Nat}

/-- An instruction that is counted pays for what follows it. -/
theorem tick (h : Metered M (M.Spent fuel) P x y) :
    Metered M (M.Affords 1 (fuel + 1)) P (Exec.tick >>= fun _ => x) (Exec.tick >>= fun _ => y) := by
  intro s hs hk
  rw [bind_apply, bind_apply, tick_apply]
  by_cases hlimit : M.world.limits.instructions.toNat ≤ s.steps
  · rw [if_pos ⟨M.limited, hlimit⟩]
    exact ⟨Nat.le_max_left _ _, fun _ => nofun⟩
  rw [if_neg fun hc => hlimit hc.2]
  -- the instruction takes one unit off what is left, and that is worth a whole pace of fuel
  have hspent : M.Spent fuel { s with steps := s.steps + 1 } := by
    intro hpays
    have hs := hs hpays
    have hbudget : M.world.budget { s with steps := s.steps + 1 } + 1 = M.world.budget s := by
      simp only [World.budget]
      omega
    rw [hbudget]
    omega
  have hx := h { s with steps := s.steps + 1 } hspent hk
  dsimp only at hx ⊢
  cases hres : x M.world { s with steps := s.steps + 1 } with
  | ok a s' =>
    simp only [hres] at hx ⊢
    obtain ⟨hy, ha, hk', hlater⟩ := hx
    have hsteps := hlater.steps
    have hcharged := hlater.charged
    exact ⟨hy, ha, hk', hlater.frames, hlater.started, by dsimp only at hsteps; omega,
      by dsimp only at hcharged; omega⟩
  | error e s' =>
    simp only [hres] at hx ⊢
    exact ⟨by omega, hx.2⟩

/-- A method that is entered pays for what it does. -/
theorem withFrame (owner name : String) (line : Int32) (h : Metered M (M.Spent fuel) P x y) :
    Metered M (M.Affords 1 (fuel + 1)) P (Exec.withFrame owner name line x) (Exec.withFrame owner name line y) := by
  intro s hs hk
  rw [withFrame_apply, withFrame_apply, pushFrame_apply]
  by_cases hdepth : M.world.limits.callDepth ≤ s.frames.length
  · rw [if_pos hdepth]
    exact ⟨Nat.le_max_left _ _, fun _ => nofun⟩
  rw [if_neg hdepth]
  have hspent : M.Spent fuel { s with frames := CallFrame.ofMethod owner name line :: s.frames } := by
    intro hpays
    have hs := hs hpays
    have hbudget : M.world.budget { s with frames := CallFrame.ofMethod owner name line :: s.frames } + 1 =
        M.world.budget s := by
      simp only [World.budget, List.length_cons]
      omega
    rw [hbudget]
    omega
  have hx := h _ hspent hk
  dsimp only
  cases hres : x M.world { s with frames := CallFrame.ofMethod owner name line :: s.frames } with
  | ok a s' =>
    simp only [hres] at hx
    obtain ⟨hy, ha, hk', hlater⟩ := hx
    rw [hy]
    dsimp only
    rw [popFrame_apply, hlater.frames]
    exact ⟨rfl, ha, hk', rfl, hlater.started, hlater.steps, hlater.charged⟩
  | error e s' =>
    simp only [hres] at hx
    refine ⟨hx.1, fun hpays he => ?_⟩
    obtain ⟨hends, t, ht⟩ := hx.2 hpays he
    exact ⟨hends, _, by rw [ht]⟩

end Exec.Metered

/-! ### Runs -/

namespace Meter

variable {M : Meter} {chain : Chain} {fuel fuel' : Nat}

open Exec (Metered)

/-- With some fuel, all that runs stays within the limits, and it is cut off only where it is with more fuel. -/
structure Level (M : Meter) (chain : Chain) (fuel fuel' : Nat) : Prop where
  run : ∀ owner m (code : Array Instruction) pc a,
    (∀ i ∈ code, ∀ f, i.staticField? = some f → M.premises.searches f) →
    Metered M (M.Affords 1 fuel) Any (chain.run owner m code fuel pc a) (chain.run owner m code fuel' pc a)
  execute : ∀ owner (m : Method) arguments receiver, m.Searches M.premises.searches →
    Metered M (M.Affords 1 fuel) Any (chain.executeWithin fuel owner m arguments receiver)
      (chain.executeWithin fuel' owner m arguments receiver)
  initClass : ∀ name, Metered M (M.AffordsSetUp fuel) Any (chain.initClassWithin fuel name)
    (chain.initClassWithin fuel' name)
  invoke : ∀ c, Metered M (M.AffordsCall chain fuel c) Any (chain.invokeWithin fuel c) (chain.invokeWithin fuel' c)

theorem Level.zero : M.Level chain 0 fuel' where
  run _ _ _ _ _ _ := by
    rw [Chain.run]
    exact .cutOff fun s hs hpays => by have h := hs hpays; omega
  execute _ _ _ _ _ := by
    rw [Chain.executeWithin]
    exact .cutOff fun s hs hpays => by have h := hs hpays; omega
  initClass _ := by
    rw [Chain.initClassWithin]
    exact .cutOff fun s hs hpays => by have h := hs hpays; omega
  invoke _ := by
    rw [Chain.invokeWithin]
    exact .cutOff fun s hs hpays => by obtain ⟨n, -, h⟩ := hs hpays; omega

/-- An instruction pays for the call that it makes, unless that is handed on without end. -/
theorem Level.metered_call (hchain : chain.Ordinary) (h : M.Level chain fuel fuel') (c : Call) :
    Metered M (M.Spent fuel) Any (chain.invokeWithin fuel c) (chain.invokeWithin fuel' c) := by
  intro s hs hk
  by_cases hn : ∃ n, chain.HandedOn M.world s c n
  · obtain ⟨n, hn⟩ := hn
    exact h.invoke c s (hs.affordsCall hchain hk hn) hk
  · have hunending := Chain.invokeWithin_unending hchain (not_exists.1 hn)
    rw [hunending, hunending]
    refine ⟨Nat.le_max_left _ _, fun _ _ => ⟨fun hends => ?_, s, rfl⟩⟩
    obtain ⟨n, -, hhanded⟩ := exists_handedOn hchain hk hends c
    exact hn ⟨n, hhanded⟩

theorem Level.alike_hooks (hchain : chain.Ordinary) (h : M.Level chain fuel fuel') :
    Hooks.Alike (M.setting (M.Spent fuel)) ⟨chain.invokeWithin fuel, chain.initClassWithin fuel⟩
      ⟨chain.invokeWithin fuel', chain.initClassWithin fuel'⟩ where
  calls := h.metered_call hchain
  setUps name := (h.initClass name).of_imp fun _ hs => hs.affordsSetUp

theorem Level.metered_run (hchain : chain.Ordinary) (h : M.Level chain fuel fuel') (owner : ClassFile) (m : Method)
    (code : Array Instruction) (pc : Nat) (a : Activation)
    (hcode : ∀ i ∈ code, ∀ f, i.staticField? = some f → M.premises.searches f) :
    Metered M (M.Affords 1 (fuel + 1)) Any (chain.run owner m code (fuel + 1) pc a)
      (chain.run owner m code (fuel' + 1) pc a) := by
  rw [Chain.run, Chain.run]
  split
  · exact .fail _
  rename_i i hi
  refine .tick (.bind M.stable_spent ((Step.alike_execute (h.alike_hooks hchain)
    (hcode i (Array.mem_of_getElem? hi)) (fun _ => trivial) a).metered M.stable_spent) fun p _ => ?_)
  obtain ⟨next, a'⟩ := p
  have hrun : ∀ pc, Metered M (M.Spent fuel) Any (chain.run owner m code fuel pc a')
      (chain.run owner m code fuel' pc a') := fun pc =>
    (h.run owner m code pc a' hcode).of_imp fun _ hs => hs.affords
  cases next with
  | advance => exact hrun _
  | jump target =>
    dsimp only
    split
    · exact hrun _
    · exact .fail _
  | finish v => exact .pure trivial

theorem Level.metered_execute (h : M.Level chain fuel fuel') (owner : ClassFile) (m : Method)
    (arguments : List Value) (receiver : Option Value) (hm : m.Searches M.premises.searches) :
    Metered M (M.Affords 1 (fuel + 1)) Any (chain.executeWithin (fuel + 1) owner m arguments receiver)
      (chain.executeWithin (fuel' + 1) owner m arguments receiver) := by
  rw [Chain.executeWithin, Chain.executeWithin]
  split
  · exact .fail _
  rename_i body hbody
  refine .bind M.stable_affords (.ofExcept _) fun d _ => ?_
  split
  · exact .fail _
  refine .withFrame _ _ _ (.bind M.stable_spent (P := Any) (fun s _ hk => ⟨rfl, trivial, hk, .refl s⟩)
    fun w _ => ?_)
  refine .bind M.stable_spent (.ofExcept _) fun a _ => ?_
  exact (h.run owner m _ 0 a (hm body hbody)).of_imp fun _ hs => hs.affords

theorem Level.metered_initAbove (h : M.Level chain fuel fuel') (c : ClassFile) :
    Metered M (M.AffordsSetUp fuel) Any (chain.initAbove fuel c) (chain.initAbove fuel' c) := by
  unfold Chain.initAbove
  split
  · exact h.initClass _
  · exact .pure trivial

theorem Level.metered_initSelf (h : M.Level chain fuel fuel') {name : String} {c : ClassFile}
    (hc : M.world.program.get? name = some c) :
    Metered M (M.AffordsSetUp fuel) Any (chain.initSelf fuel c) (chain.initSelf fuel' c) := by
  unfold Chain.initSelf
  split
  · rename_i m hm
    have hsearches := (M.knows name c hc m (ClassFile.mem_of_setup? hm)).2
    refine .bind M.stable_affordsSetUp ((h.execute c m [] none hsearches).of_imp fun s hs hpays => ?_)
      fun _ _ => .pure trivial
    have hs := hs hpays
    omega
  · exact .pure trivial

theorem Level.metered_initClass (h : M.Level chain fuel fuel') (name : String) :
    Metered M (M.AffordsSetUp (fuel + 1)) Any (chain.initClassWithin (fuel + 1) name)
      (chain.initClassWithin (fuel' + 1) name) := by
  intro s hs hk
  rw [Chain.initClassWithin_apply, Chain.initClassWithin_apply]
  cases hc : M.world.program.get? name with
  | none => exact ⟨rfl, trivial, hk, .refl s⟩
  | some c =>
    dsimp only
    by_cases hname : name ∈ s.started
    · rw [if_pos hname, if_pos hname]
      exact ⟨rfl, trivial, hk, .refl s⟩
    rw [if_neg hname, if_neg hname]
    -- the class does not wait any more, which pays for the class above it and for its own code
    have haffords : M.AffordsSetUp fuel { s with started := name :: s.started } := by
      intro hpays
      have hs := hs hpays
      have hlength := ClassDictionary.length_waiting_cons hc hname
      have hle : M.world.budget s * M.world.pace +
          (M.world.program.waiting (name :: s.started)).length + 1 ≤ fuel := by omega
      exact hle
    have hx := Metered.bind M.stable_affordsSetUp (h.metered_initAbove c) (fun _ _ => h.metered_initSelf hc) _
      haffords hk
    cases hres : (chain.initAbove fuel c >>= fun _ => chain.initSelf fuel c) M.world
        { s with started := name :: s.started } with
    | ok u s' =>
      simp only [hres] at hx
      obtain ⟨hy, -, hk', hlater⟩ := hx
      exact ⟨hy, trivial, hk', hlater.frames, fun n hn => hlater.started n (List.mem_cons_of_mem _ hn),
        hlater.steps, hlater.charged⟩
    | error e s' =>
      simp only [hres] at hx
      exact hx

/-- A call that is not handed on. -/
theorem Level.metered_answered (hchain : chain.Ordinary) (h : M.Level chain fuel fuel') (c : Call) :
    Metered M (M.Affords 2 (fuel + 1)) Any
      (chain.answer c >>= Answer.fulfil (chain.executeWithin fuel) fun _ => pure .null)
      (chain.answer c >>= Answer.fulfil (chain.executeWithin fuel') fun _ => pure .null) := by
  have hanswered : c.Answered (M.setting (M.Affords 2 (fuel + 1))) (chain.executeWithin fuel)
      (chain.executeWithin fuel') (fun _ => pure .null) (fun _ => pure .null) := by
    refine ⟨fun owner m arguments receiver hm => ?_, fun _ _ _ => .pure trivial⟩
    refine (h.execute owner m arguments receiver hm).of_imp fun s hs hpays => ?_
    have hs := hs hpays
    omega
  rw [← Chain.resolveWith_eq, ← Chain.resolveWith_eq]
  refine .bind M.stable_affords ((Chain.alike_resolveWith hchain hanswered).metered M.stable_affords) fun v _ => ?_
  split
  · exact .pure trivial
  · exact .fail _

theorem Level.metered_invoke (hchain : chain.Ordinary) (h : M.Level chain fuel fuel') (c : Call) :
    Metered M (M.AffordsCall chain (fuel + 1) c) Any (chain.invokeWithin (fuel + 1) c)
      (chain.invokeWithin (fuel' + 1) c) := by
  intro s hs hk
  by_cases hlast : ∀ next t, chain.answer c M.world s ≠ .ok (.handOn next) t
  · have haffords : M.Affords 2 (fuel + 1) s := by
      intro hpays
      obtain ⟨n, -, hn⟩ := hs hpays
      omega
    have hanswered := h.metered_answered hchain c s haffords hk
    rwa [Chain.invokeWithin_eq, Chain.invokeWithin_eq, Chain.fulfil_eq_of_last hlast _ fun _ => pure .null,
      Chain.fulfil_eq_of_last hlast (chain.invokeWithin fuel') fun _ => pure .null]
  · obtain ⟨next, t, hnext⟩ : ∃ next t, chain.answer c M.world s = .ok (.handOn next) t := by
      simpa using hlast
    obtain rfl := Chain.state_of_handOn hchain hnext
    have haffords : M.AffordsCall chain fuel next t := by
      intro hpays
      obtain ⟨n, hn, hle⟩ := hs hpays
      cases hn with
      | last hlast => exact absurd hnext (hlast _ _)
      | next hc hn =>
        cases hnext.symm.trans hc
        exact ⟨_, hn, by omega⟩
    have hinvoke := h.invoke next t haffords hk
    rw [Chain.invokeWithin_handOn hnext, Chain.invokeWithin_handOn hnext]
    cases hres : chain.invokeWithin fuel next M.world t with
    | ok v u =>
      simp only [hres] at hinvoke
      obtain ⟨hy, -, hk', hlater⟩ := hinvoke
      rw [hy]
      exact ⟨rfl, trivial, hk', hlater⟩
    | error e u =>
      simp only [hres] at hinvoke
      refine ⟨hinvoke.1, fun hpays he => ?_⟩
      obtain ⟨hends, u', hu'⟩ := hinvoke.2 hpays he
      exact ⟨hends, u', by rw [hu']⟩

/-- With any fuel, all that runs stays within the limits. -/
theorem level (M : Meter) (hchain : chain.Ordinary) (h : fuel ≤ fuel') : M.Level chain fuel fuel' := by
  induction fuel generalizing fuel' with
  | zero => exact .zero
  | succ fuel ih =>
    obtain ⟨k, rfl⟩ : ∃ k, fuel' = k + 1 := ⟨fuel' - 1, by omega⟩
    have hk : M.Level chain fuel k := ih (by omega)
    exact ⟨hk.metered_run hchain, hk.metered_execute, hk.metered_initClass, hk.metered_invoke hchain⟩

end Meter

end Jvm
