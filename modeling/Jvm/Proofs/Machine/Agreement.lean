import Jvm.Proofs.Flow.Trace
import Jvm.Proofs.Machine.Instructions
import Jvm.Proofs.Machine.Masked
import Jvm.Proofs.Machine.Places

/-!
# The machine is where the analysis thinks it is

At each place that the execution of a method comes to (`Chain.Visits`) the analysis knows a stack, and the
stack of the machine has the same words, entry by entry, and holds the very constants that the analysis
knows (`Point.Known`). One instruction keeps that (`known_move`), by `Step.obeys_execute` for the machine
and `Flow.transfer_follows` for the analysis, which both follow the one table of effects.

So the run of an accepted body raises no fault of the shape of its own: `execute_agrees`.
-/

namespace Jvm

open Exec (Any)

/-! ### Frames and values -/

/-- What the frame says of a value: its words and, if it is a constant, which. -/
def Frame.Fits (h : Heap) (f : Frame) (v : Value) : Prop :=
  f.width = v.width ∧ ∀ c, f.constant? = some c → h.IsConstant v c

namespace Frame

variable {f g : Frame} {h h' : Heap} {v : Value}

theorem Fits.grows (hf : f.Fits h v) (hg : h.Grows h') : f.Fits h' v :=
  ⟨hf.1, fun c hc => (hf.2 c hc).grows hg⟩

theorem Covers.fits (hg : g.Covers f) (hf : f.Fits h v) : g.Fits h v := by
  refine ⟨hg.width.trans hf.1, fun c hc => hf.2 c ?_⟩
  obtain ⟨n, rfl⟩ := source_of_constant hc
  rw [← (hg.known rfl).2, hc]

theorem fits_of {n : Nat} {p : Pushed} (hf : f.Of n p) (hv : p.Fits h v) : f.Fits h v :=
  ⟨hf.width.trans hv.1.symm, fun c hc => hv.2 c (hf.constant.symm.trans hc)⟩

end Frame

namespace Flow

variable {name : String} {code : Array Instruction} {p : Progress}

/-- What the analysis knows at an instruction holds of the stack there. -/
def Progress.Knows (p : Progress) (n : Nat) (h : Heap) (stack : List Value) : Prop :=
  ∃ known, p.at? n = some known ∧ List.Forall₂ (Frame.Fits h) known stack

end Flow

namespace StackEffect

/-- What is taken is what is on top. -/
theorem taken_eq {α : Type} [HasWidth α] {e : StackEffect} {make : Pushed → α} {σ taken after : List α}
    (h : e.run? make σ = some (taken, after)) : taken = (σ.take taken.length).reverse := by
  cases e with
  | replace count pushed =>
    simp only [run?] at h
    split at h
    · cases h
    rename_i hn
    cases h
    rw [List.length_reverse, List.length_take, Nat.min_eq_left (by omega)]
  | drop words =>
    simp only [run?] at h
    split at h
    · rename_i heq
      cases h
      rw [Words.append_of_takeWords heq, List.length_reverse, List.take_left]
    · cases h
  | copy | exchange =>
    simp only [run?] at h
    split at h <;> cases h
    rfl
  | recast =>
    cases σ <;> cases h
    rfl

/-- An effect that can be carried out on frames can be carried out on values of the same words, and takes
the values that belong to the frames. -/
theorem exists_run? {e : StackEffect} {make : Pushed → Frame} {h : Heap} {known consumed after : List Frame}
    {values : List Value} (hf : List.Forall₂ (Frame.Fits h) known values)
    (hmake : ∀ p, e.pushed? = some p → (make p).width = p.width)
    (hrun : e.run? make known = some (consumed, after)) : ∃ make' after',
      e.run? make' values = some ((values.take consumed.length).reverse, after') ∧
      List.Forall₂ (Frame.Fits h) consumed (values.take consumed.length).reverse := by
  have hsample : ∀ p, e.pushed? = some p →
      (make p).width = (if p.width = .single then Value.null else .long 0).width := by
    intro p hp
    rw [hmake p hp]
    cases hw : p.width <;> rfl
  obtain ⟨taken, after', h1, h2, -⟩ := run?_rel (R := fun f v => f.width = v.width) (fun _ _ hw => hw)
    hsample (hf.imp fun _ _ hv => hv.1) hrun
  have htaken := taken_eq h1
  rw [← h2.length_eq] at htaken
  refine ⟨_, after', htaken ▸ h1, ?_⟩
  have hconsumed := List.rel_reverse (List.forall₂_take consumed.length hf)
  rwa [← taken_eq hrun] at hconsumed

end StackEffect

namespace Chain

variable {chain : Chain} {hooks : Hooks} {i : Instruction} {effect : StackEffect} {w : World} {s s' : State}
  {a a' : Activation} {e : Stop} {next : Next}

/-- A fault of the shape that ends an instruction is gone where those of calls are covered up. -/
theorem perform_masked (hh : hooks.Refines hooks) (heffect : i.stackEffect? = some effect)
    (hs : s.heap.Sound) {make : Pushed → Value} {taken after : List Value}
    (hrun : effect.run? make a.stack.values = some (taken, after))
    (h : chain.perform hooks i a w s = .error e s') (he : e.isShape = true) :
    chain.perform hooks.masked i a w s = .error .outOfFuel s' := by
  rw [perform_apply] at h ⊢
  split at h
  · cases h
    cases he
  rename_i hlimit
  rw [if_neg hlimit]
  rcases Step.masks_execute hooks a w { s with steps := s.steps + 1 } with hmask | ⟨e', t, h1, -, h2⟩
  · have hobeys : Step.Obeys hooks.masked i effect i.Goes (Step.execute chain hooks.masked i) :=
      Step.obeys_execute hh.masked heffect
    have hraises := hobeys a w { s with steps := s.steps + 1 } hs make taken after hrun
    rw [hmask, h] at hraises
    have hcontra := Hooks.isShape_of_raises (hraises he)
    rw [he] at hcontra
    cases hcontra
  · rw [h] at h1
    cases h1
    exact h2

/-- An instruction that goes on has kept the heap in order and has carried out its effect. -/
theorem perform_obeys (hh : hooks.Refines hooks) (heffect : i.stackEffect? = some effect)
    (hs : s.heap.Sound) {make : Pushed → Value} {taken after : List Value}
    (hrun : effect.run? make a.stack.values = some (taken, after))
    (h : chain.perform hooks i a w s = .ok (next, a') s') :
    i.Goes next ∧ s'.heap.Sound ∧ s.heap.Grows s'.heap ∧
      ∃ v, effect.run? (fun _ => v) a.stack.values = some (taken, a'.stack.values) ∧
        (i.isFieldLoad = false → ∀ p, effect.pushed? = some p → p.Fits s'.heap v) := by
  have hx := perform_ok h
  have hobeys : Step.Obeys hooks i effect i.Goes (Step.execute chain hooks i) :=
    Step.obeys_execute hh heffect
  have hrefines : Step.Refines (Step.execute chain hooks i) (Step.execute chain hooks i) :=
    Step.refines_execute hh
  have hresult := hobeys a w { s with steps := s.steps + 1 } hs make taken after hrun
  rw [hx] at hresult
  obtain ⟨hgoes, hs', hv⟩ := hresult
  obtain ⟨-, hevolves⟩ := (hrefines a).keeps w { s with steps := s.steps + 1 } (next, a') s' hs hx
  exact ⟨hgoes, hs', hevolves.grows, hv⟩

theorem refines_hooks (hchain : chain.Ordinary) (fuel : Nat) :
    (chain.hooks fuel).Refines (chain.hooks fuel) := (level hchain (Nat.le_refl fuel)).refines_hooks

end Chain

/-! ### Along a run -/

theorem FieldType.isVoid_of_parse {s : String} {t : FieldType} (h : FieldType.parse s = .ok t) :
    t.isVoid = false := by
  unfold FieldType.parse at h
  split at h
  · cases h
  split at h
  · cases h
  split at h
  · cases h
  rename_i hvoid
  cases h
  cases t with
  | void => exact absurd rfl hvoid
  | _ => rfl

namespace Instruction

theorem field_of_isFieldLoad {i : Instruction} {effect : StackEffect} (h : i.stackEffect? = some effect)
    (hi : i.isFieldLoad = true) : ∃ f t n, i.operand = .field f ∧ FieldType.parse f.descriptor = .ok t ∧
      effect = .replace n (some ⟨Flow.widthOf t, none⟩) := by
  obtain ⟨opcode, operand⟩ := i
  have hopcode : opcode = .getStatic ∨ opcode = .getField := of_decide_eq_true hi
  rcases hopcode with rfl | rfl
  all_goals
    cases operand
    case field f =>
      dsimp only [stackEffect?] at h
      split at h
      · rename_i t ht
        cases h
        exact ⟨f, t, _, rfl, ht, rfl⟩
      · cases h
    all_goals cases h

end Instruction

namespace Chain

/-- If a field is loaded between the two places, the value is of the type of the field's descriptor. -/
def LoadFits (code : Array Instruction) (q r : Point) : Prop :=
  ∀ i f t, code[q.pc]? = some i → i.isFieldLoad = true → i.operand = .field f →
    FieldType.parse f.descriptor = .ok t →
    ∃ v rest, r.activation.stack.values = v :: rest ∧ v.fits t = true

/-- The heap is in order, and what the analysis knows at a place holds of the stack there. -/
structure Point.Known (p : Flow.Progress) (q : Point) : Prop where
  sound : q.state.heap.Sound
  knows : p.Knows q.pc q.state.heap q.activation.stack.values

variable {chain : Chain} {name : String} {code : Array Instruction} {p : Flow.Progress} {w : World}
  {fuel : Nat} {q r : Point}

/-- After an instruction its value fits the frame that the analysis has made for it. -/
theorem fits_performed {i : Instruction} {effect : StackEffect} {n : Nat} {make : Pushed → Frame} {h : Heap}
    {values taken after : List Value} {v : Value} (heffect : i.stackEffect? = some effect)
    (hmake : ∀ p, effect.pushed? = some p → (make p).Of n p)
    (hrun : effect.run? (fun _ => v) values = some (taken, after))
    (hv : i.isFieldLoad = false → ∀ p, effect.pushed? = some p → p.Fits h v)
    (hload : ∀ f t, i.isFieldLoad = true → i.operand = .field f → FieldType.parse f.descriptor = .ok t →
      ∃ u rest, after = u :: rest ∧ u.fits t = true) :
    ∀ p, effect.pushed? = some p → (make p).Fits h v := by
  intro p hp
  refine Frame.fits_of (hmake p hp) ?_
  by_cases hi : i.isFieldLoad = true
  · obtain ⟨f, t, k, hoperand, ht, rfl⟩ := Instruction.field_of_isFieldLoad heffect hi
    obtain ⟨u, rest, hafter, hu⟩ := hload f t hi hoperand ht
    simp only [StackEffect.run?] at hrun
    split at hrun
    · cases hrun
    cases hp
    obtain ⟨-, hrest⟩ := Prod.mk.inj (Option.some.inj hrun)
    obtain rfl : v = u := (List.cons.inj (hrest.trans hafter)).1
    exact ⟨Step.width_of_fits hu (FieldType.isVoid_of_parse ht), fun c hc => by cases hc⟩
  · exact hv (Bool.eq_false_iff.2 hi) p hp

/-- One instruction of a run keeps that the analysis is right. -/
theorem known_move (hchain : chain.Ordinary) (hsound : p.Sound name code) (hpending : p.pending = [])
    (hq : q.Known p) (hmove : chain.Moves w code q r) (hload : LoadFits code q r) : r.Known p := by
  obtain ⟨hs, known, hk, hfits⟩ := hq
  obtain ⟨i, e, after, effect, make, hi, -, heffect, hrun, hmake, hsucc⟩ :=
    Flow.settled_at hsound (by simp [hpending]) hk
  obtain ⟨make', after', hrun', -⟩ := StackEffect.exists_run? hfits (fun p hp => (hmake p hp).width) hrun
  -- what the instruction leaves fits what the analysis thinks it leaves
  have hstep : ∀ {fuel : Nat} {a' : Activation} {s' : State} {next : Next},
      chain.perform (chain.hooks fuel) i q.activation w q.state = .ok (next, a') s' →
      (∀ f t, i.isFieldLoad = true → i.operand = .field f → FieldType.parse f.descriptor = .ok t →
        ∃ u rest, a'.stack.values = u :: rest ∧ u.fits t = true) →
      i.Goes next ∧ s'.heap.Sound ∧ List.Forall₂ (Frame.Fits s'.heap) after a'.stack.values := by
    intro fuel a' s' next hx hloaded
    obtain ⟨hgoes, hs', hgrows, v, hv, hpushed⟩ :=
      perform_obeys (refines_hooks hchain fuel) heffect hs hrun' hx
    obtain ⟨taken, values, h1, -, h2⟩ := StackEffect.run?_rel (fun _ _ hf => hf.1)
      (fits_performed heffect hmake hv hpushed hloaded) (hfits.imp fun _ _ hf => hf.grows hgrows) hrun
    rw [hv] at h1
    cases h1
    exact ⟨hgoes, hs', h2⟩
  cases hmove with
  | advance hj hx =>
    obtain rfl := Option.some.inj (hi.symm.trans hj)
    obtain ⟨⟨hfalls, hjsr⟩, hs', hafter⟩ := hstep hx fun f t => hload i f t hi
    obtain ⟨known', hk', hc⟩ := hsucc _ _ (Flow.mem_successors_next hfalls)
    rw [Instruction.fallen, if_neg hjsr] at hc
    exact ⟨hs', known', hk', Flow.forall₂_covers (fun _ _ _ _ hc hv => hc.fits hv) hc hafter⟩
  | jump hj hx _ =>
    obtain rfl := Option.some.inj (hi.symm.trans hj)
    obtain ⟨htarget, hs', hafter⟩ := hstep hx fun f t => hload i f t hi
    obtain ⟨known', hk', hc⟩ := hsucc _ _ (Flow.mem_successors_target htarget)
    exact ⟨hs', known', hk', Flow.forall₂_covers (fun _ _ _ _ hc hv => hc.fits hv) hc hafter⟩

variable {owner : ClassFile} {m : Method} {b : MethodBody} {arguments : List Value} {receiver : Option Value}
  {s s' : State} {e : Stop}

/-- All loads of fields in the execution of a method push values of the types of the fields' descriptors. -/
def FieldsFit (chain : Chain) (w : World) (owner : ClassFile) (m : Method) (b : MethodBody)
    (arguments : List Value) (receiver : Option Value) (fuel : Nat) (s : State) : Prop :=
  ∀ q r, Visits chain w owner m b arguments receiver fuel s q → chain.Moves w b.instructions q r →
    LoadFits b.instructions q r

theorem known_visits (hchain : chain.Ordinary) (hsound : p.Sound name b.instructions)
    (hpending : p.pending = []) (hb : b.size ≠ 0) (hs : s.heap.Sound)
    (hfields : FieldsFit chain w owner m b arguments receiver fuel s)
    (hq : Visits chain w owner m b arguments receiver fuel s q) : q.Known p := by
  induction hq with
  | enter _ _ hpush henter =>
    refine ⟨?_, [], hsound.start (Nat.pos_of_ne_zero hb), ?_⟩
    · rw [Exec.pushFrame_apply] at hpush
      split at hpush <;> cases hpush
      exact hs
    · rw [values_enter henter]
      exact .nil
  | move hv hmove ih => exact known_move hchain hsound hpending (ih hs hfields) hmove (hfields _ _ hv hmove)

/-! ### How a run ends -/

/-- A fault of the shape that ends the instruction at a place has come out of a call or the set-up of a
class: the fault is gone where those are covered up. -/
def Point.Blames (chain : Chain) (w : World) (code : Array Instruction) (q : Point) (e : Stop) : Prop :=
  ∃ fuel i s', q.fuel = fuel + 1 ∧ code[q.pc]? = some i ∧
    chain.perform (chain.hooks fuel) i q.activation w q.state = .error e s' ∧
    chain.perform (chain.hooks fuel).masked i q.activation w q.state = .error .outOfFuel s'

/-- Where the analysis is right all along, a run raises no fault of the shape of its own. -/
theorem blames_run (hchain : chain.Ordinary) (hsound : p.Sound name code) (hpending : p.pending = [])
    {P : Point → Prop} (hknown : ∀ q, P q → q.Known p) (hmoves : ∀ q r, P q → chain.Moves w code q r → P r)
    {a : Activation} {pc : Nat} (hq : P ⟨fuel, pc, a, s⟩)
    (h : chain.run owner m code fuel pc a w s = .error e s') (he : e.isShape = true) :
    ∃ q, P q ∧ q.Blames chain w code e := by
  induction fuel generalizing pc a s with
  | zero =>
    rw [Chain.run] at h
    cases h
    cases he
  | succ fuel ih =>
    obtain ⟨hs, known, hk, hfits⟩ := hknown _ hq
    obtain ⟨i, e', after, effect, make, hi, -, heffect, hrun, hmake, hsucc⟩ :=
      Flow.settled_at hsound (by simp [hpending]) hk
    obtain ⟨make', after', hrun', -⟩ := StackEffect.exists_run? hfits (fun p hp => (hmake p hp).width) hrun
    have hhooks := refines_hooks hchain fuel
    rw [run_apply, hi] at h
    dsimp only at h
    cases hx : chain.perform (chain.hooks fuel) i a w s with
    | error e'' t =>
      simp only [hx] at h
      cases h
      exact ⟨_, hq, fuel, i, s', rfl, hi, hx, perform_masked hhooks heffect hs hrun' hx he⟩
    | ok p t =>
      obtain ⟨next, a'⟩ := p
      simp only [hx] at h
      cases next with
      | advance => exact ih (hmoves _ _ hq (.advance hi hx)) h
      | finish v => cases h
      | jump target =>
        dsimp only at h
        have hlt : target < code.size := by
          obtain ⟨htarget, -⟩ := perform_obeys hhooks heffect hs hrun' hx
          obtain ⟨known', hk', -⟩ := hsucc _ _ (Flow.mem_successors_target htarget)
          obtain ⟨j, hj⟩ := Flow.Progress.at?_lt hsound hk'
          exact (Array.getElem?_eq_some_iff.1 hj).1
        rw [if_pos hlt] at h
        exact ih (hmoves _ _ hq (.jump hi hx hlt)) h

/-! ### The analysis is right of every execution -/

/-- The instruction at a place has an entry and a stack, both right of the values there: the entries of
the stack have the words of the values, and an operand that is a literal is its constant. -/
def Point.Agrees (r : Analysis) (p : Flow.Progress) (q : Point) : Prop :=
  ∃ e known, r.entry? q.pc = some e ∧ p.at? q.pc = some known ∧
    known.map Frame.width = q.activation.stack.values.map Value.width ∧
    List.Forall₂ (fun f v => ∀ c n, f = .literal c n → q.state.heap.IsConstant v c)
      e.consumed (q.activation.stack.values.take e.consumed.length).reverse

theorem Point.Known.agrees (hq : q.Known p) (hsound : p.Sound name code) (hpending : p.pending = []) :
    q.Agrees ⟨p.entries⟩ p := by
  obtain ⟨-, known, hk, hfits⟩ := hq
  obtain ⟨i, e, after, effect, make, -, hentry, heffect, hrun, hmake, -⟩ :=
    Flow.settled_at hsound (by simp [hpending]) hk
  obtain ⟨make', after', -, hconsumed⟩ :=
    StackEffect.exists_run? hfits (fun p hp => (hmake p hp).width) hrun
  refine ⟨e, known, by rw [Analysis.entry?, hentry, Option.join_some], hk, ?_, hconsumed.imp ?_⟩
  · exact List.forall₂_eq_eq_eq ▸ (List.forall₂_map_left_iff.2 (List.forall₂_map_right_iff.2 <|
      hfits.imp fun _ _ hv => hv.1))
  · rintro f v hv c n rfl
    exact hv.2 c rfl

theorem fieldsFit_of_none (h : ∀ i ∈ b.instructions, i.isFieldLoad = false) :
    FieldsFit chain w owner m b arguments receiver fuel s := by
  intro q r _ _ i f t hi hload
  rw [h i (Array.mem_of_getElem? hi)] at hload
  cases hload

/-- Wherever the execution of an accepted body comes, the analysis is right of the stack there. If the
execution ends in a fault of the shape, that has come out of a call or the set-up of a class. -/
theorem execute_agrees {r : Analysis} (hr : Flow.analyze name b = .ok r) (hb : b.size ≠ 0)
    (hm : m.body = some b) (hs : s.heap.Sound)
    (hfields : FieldsFit standard w owner m b arguments receiver fuel s) :
    ∃ p, Flow.solve name b = .ok p ∧
      (∀ q, Visits standard w owner m b arguments receiver fuel s q → q.Agrees r p) ∧
      ∀ e s', standard.executeWithin fuel owner m arguments receiver w s = .error e s' →
        e.isShape = true → ∃ q, Visits standard w owner m b arguments receiver fuel s q ∧
          q.Blames standard w b.instructions e := by
  rw [Flow.analyze] at hr
  cases hp : Flow.solve name b with
  | error => rw [hp] at hr; cases hr
  | ok p =>
    rw [hp] at hr
    cases hr
    obtain ⟨hsound, hpending⟩ := Flow.sound_solve hp
    have hknown := fun q => known_visits (q := q) ordinary_standard hsound hpending hb hs hfields
    refine ⟨p, rfl, fun q hq => (hknown q hq).agrees hsound hpending, fun e s' h he => ?_⟩
    obtain ⟨fuel', a, t, u, hvisit, hrun⟩ := exists_run_of_shape hm h he
    exact blames_run ordinary_standard hsound hpending hknown (fun _ _ hq hmove => .move hq hmove)
      hvisit hrun he

/-- A text that is copied before it is returned. -/
def copied : MethodBody :=
  { instructions :=
      #[⟨.ldc, .const (.string [97])⟩, ⟨.dup false 0, .none⟩, ⟨.pop, .none⟩, ⟨.valueReturn .ref, .none⟩]
    maxLocals := 0 }

def copiedMain : Method := ⟨"main", "()Ljava/lang/String;", 8, some copied⟩

def copiedClass : ClassFile := ⟨"Copied", none, [], 0, 0, [], [copiedMain]⟩

def copiedWorld : World := ⟨.empty, .standard, none, [], .still 0⟩

theorem execute_agrees_copied : ∃ r p,
    Flow.analyze "Copied" copied = .ok r ∧ Flow.solve "Copied" copied = .ok p ∧
    (∀ q, Visits standard copiedWorld copiedClass copiedMain copied [] none 9 (.start .standard) q →
      q.Agrees r p) ∧
    ∀ e s', standard.executeWithin 9 copiedClass copiedMain [] none copiedWorld (.start .standard) =
      .error e s' → e.isShape = true →
      ∃ q, Visits standard copiedWorld copiedClass copiedMain copied [] none 9 (.start .standard) q ∧
        q.Blames standard copiedWorld copied.instructions e := by
  obtain ⟨r, hr⟩ : ∃ r, Flow.analyze "Copied" copied = .ok r := ⟨_, rfl⟩
  obtain ⟨p, hp, hagrees, hblames⟩ := execute_agrees (m := copiedMain) (s := .start .standard) hr
    (by decide) rfl (Heap.sound_empty _) (fieldsFit_of_none (by decide))
  exact ⟨r, p, hr, hp, hagrees, hblames⟩

end Chain

end Jvm
