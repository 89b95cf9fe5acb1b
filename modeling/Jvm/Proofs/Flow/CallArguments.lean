import Jvm.Proofs.Flow.Typability

/-!
# The arguments of calls

`Analysis.callArguments?` reads the arguments of a call off the frame that its instruction leaves. Only a call
makes such a frame (`transfer_leaves`), but a cast leaves the very frame that it takes: where the result of a
call is cast, the cast has the arguments of that call. `callArguments_iff` says that there are no other cases,
and that the arguments are as many as the call takes.

The invariant for the second is `OfCall`: a frame with arguments comes from a reachable call that takes so many.
Copies, joins and loops keep it, since a frame that changes becomes unknown (`follow_keeps`).
-/

namespace Jvm.Flow

variable {owner : String} {code : Array Instruction} {n : Nat} {i : Instruction} {stack after : List Frame}
  {e : FlowEntry}

/-! ### What an instruction leaves -/

/-- No call without a method is accepted. -/
theorem exists_invoke (h : transfer owner n i stack = .ok (e, after)) (hi : i.opcode.isInvoke = true) :
    ∃ kind m, i = ⟨.invoke kind, .method m⟩ := by
  obtain ⟨opcode, operand⟩ := i
  cases opcode with
  | invoke kind =>
    cases operand with
    | method m => exact ⟨kind, m, rfl⟩
    | _ => cases h
  | _ => cases hi

/-- The frames that an instruction leaves were there before or are of its own making, and of all instructions
only a call makes a frame with arguments; a cast leaves the frame that it takes. -/
structure Leaves (i : Instruction) (stack : List Frame) (e : FlowEntry) (after : List Frame) : Prop where
  frames : ∀ f ∈ after, f ∈ stack ∨ e.produced = some f
  arguments : ∀ f, e.produced = some f → f.arguments?.isSome = true →
    (∃ kind m, i = ⟨.invoke kind, .method m⟩) ∨ (i.opcode = .checkCast ∧ e.consumed = [f] ∧ f ∈ stack)

theorem leaves_popN {count : Nat} {taken rest recorded : List Frame} {produced : Option Frame}
    (h : popN count stack = .ok (taken, rest)) (hp : ∀ f, produced = some f → f.arguments? = none) :
    Leaves i stack ⟨recorded, produced⟩ (produced.toList ++ rest) := by
  rw [popN] at h
  split at h
  · cases h
  cases h
  refine ⟨fun f hf => ?_, fun f hf hargs => ?_⟩
  · rcases List.mem_append.1 hf with hf | hf
    · exact .inr (Option.mem_toList.1 hf)
    · exact .inl (List.mem_of_mem_drop hf)
  · rw [hp f hf] at hargs
    cases hargs

theorem leaves_replace {count : Nat} {produced : Option Frame} (h : replace count produced stack = .ok (e, after))
    (hp : ∀ f, produced = some f → f.arguments? = none) : Leaves i stack e after := by
  rw [replace] at h
  split at h
  · cases h
  · rename_i hpop
    cases h
    exact leaves_popN hpop hp

/-- An instruction that only moves frames. -/
theorem leaves_moved {effect : StackEffect} {make : Pushed → Frame} {taken : List Frame}
    (hrun : effect.run? make stack = some (taken, after)) (hpushed : effect.pushed? = none)
    (he : e.produced = none) : Leaves i stack e after := by
  refine ⟨fun f hf => .inl ?_, fun f hf => by cases he.symm.trans hf⟩
  exact (StackEffect.run?_all (P := (· ∈ stack)) (fun p hp => by cases hpushed.symm.trans hp)
    (fun _ hf => hf) hrun).2 f hf

theorem produced_rearrange {opcode : Opcode} {moved : Except Fault (List Frame)}
    (h : rearrange (located owner n opcode moved) = .ok (e, after)) : e.produced = none := by
  cases moved <;> cases h
  rfl

theorem transfer_leaves (h : transfer owner n i stack = .ok (e, after)) : Leaves i stack e after := by
  obtain ⟨opcode, operand⟩ := i
  have hfollows := transfer_follows h
  have hmake : ∀ {f g : Frame}, g.arguments? = none → some g = some f → f.arguments? = none := by
    rintro f g hg ⟨⟩
    exact hg
  cases opcode <;> simp only [transfer] at h
  case nop | iinc | goto | voidReturn | ret | store | ifInt | ifNull | tableSwitch | lookupSwitch
      | valueReturn | athrow | monitor | putStatic | ifIntCmp | ifRefCmp | putField | arrayStore =>
    exact leaves_replace h fun _ hf => by cases hf
  case aconstNull | jsr | arrayLoad | arrayLength | arith | shift | bits | lcmp | fcmp | dcmp | neg
      | convert | instanceOf | iconst | lconst | fconst | dconst =>
    exact leaves_replace h fun _ => hmake rfl
  case bipush | sipush | ldc | load | newArray | multiNewArray | new =>
    split at h
    · exact leaves_replace h fun _ => hmake rfl
    · cases h
  case anewArray =>
    split at h
    · split at h
      · cases h
      · exact leaves_replace h fun _ => hmake rfl
    · cases h
  case pop | pop2 =>
    obtain ⟨effect, make, heffect, hrun, -⟩ := hfollows
    cases heffect
    refine leaves_moved hrun rfl ?_
    split at h
    · cases h
    · cases h
      rfl
  case dup | swap =>
    obtain ⟨effect, make, heffect, hrun, -⟩ := hfollows
    cases heffect
    exact leaves_moved hrun rfl (produced_rearrange h)
  case getStatic | getField =>
    split at h
    · split at h
      · cases h
      · rename_i hpop
        split at h
        · cases h
        · cases h
          exact leaves_popN hpop fun _ => hmake rfl
    · cases h
  case invoke kind =>
    cases operand
    case method m =>
      have hcall : transfer owner n ⟨.invoke kind, .method m⟩ stack = .ok (e, after) := h
      obtain ⟨-, -, -, -, hframes⟩ := transfer_call hcall
      exact ⟨hframes, fun _ _ _ => .inl ⟨kind, m, rfl⟩⟩
    all_goals cases h
  case invokeDynamic =>
    split at h
    · split at h
      · cases h
      · refine leaves_replace h ?_
        split
        · rintro f ⟨⟩
        · rintro f ⟨⟩
          rfl
    · cases h
  case checkCast =>
    split at h
    · cases h
    · cases h
      exact ⟨fun f hf => .inl hf, fun f hf _ => .inr ⟨rfl, by cases hf; exact ⟨rfl, List.mem_cons_self⟩⟩⟩

/-! ### Where frames with arguments come from -/

section Keeps

variable {P : Frame → Prop} {p q : Progress}

/-- All frames that are known have a property. -/
def Progress.All (P : Frame → Prop) (p : Progress) : Prop :=
  ∀ n stack, p.at? n = some stack → ∀ f ∈ stack, P f

theorem all_meetStacks (hunknown : ∀ os w, P (.unknown os w)) {target : Nat} {a b s : List Frame}
    (h : meetStacks owner target a b = .ok s) (ha : ∀ f ∈ a, P f) : ∀ f ∈ s, P f := by
  rw [meetStacks] at h
  split at h
  · cases h
  split at h
  · cases h
  cases h
  rw [← List.map_uncurry_zip_eq_zipWith]
  intro k hk
  obtain ⟨⟨f, g⟩, hfg, rfl⟩ := List.mem_map.1 hk
  rw [Function.uncurry, Frame.meet]
  split
  · exact ha f (List.of_mem_zip hfg).1
  · exact hunknown _ _

/-- An edge keeps what holds of unknown frames and of those that it brings. -/
theorem follow_keeps (hunknown : ∀ os w, P (.unknown os w)) {opcode : Opcode} {edge : Nat × List Frame}
    (h : follow owner n opcode p edge = .ok q) (hp : p.All P) (hedge : ∀ f ∈ edge.2, P f) :
    q.All P ∧ q.entries = p.entries := by
  obtain ⟨t, s⟩ := edge
  have hdelivered : ∀ f ∈ Progress.delivered n t s, P f := by
    rw [Progress.delivered]
    split
    · intro f hf
      obtain ⟨g, -, rfl⟩ := List.mem_map.1 hf
      exact hunknown _ _
    · exact hedge
  have hlearn : ∀ (ht : t < p.incoming.size) {learnt}, (∀ f ∈ learnt, P f) → (p.learn ht learnt).All P := by
    intro ht learnt hlearnt m stack hm
    rw [at?_learn ht] at hm
    split at hm
    · exact Option.some.inj hm ▸ hlearnt
    · exact hp m stack hm
  obtain ⟨ht, ⟨-, rfl⟩ | ⟨known, merged, hknown, hmerged, ⟨-, rfl⟩ | ⟨-, rfl⟩⟩⟩ := follow_cases h
  · exact ⟨hlearn ht hdelivered, rfl⟩
  · exact ⟨hp, rfl⟩
  · exact ⟨hlearn ht (all_meetStacks hunknown hmerged (hp t known hknown)), rfl⟩

theorem follow_all_keeps (hunknown : ∀ os w, P (.unknown os w)) {opcode : Opcode}
    {edges : List (Nat × List Frame)} (h : edges.foldlM (follow owner n opcode) p = .ok q) (hp : p.All P)
    (hedges : ∀ edge ∈ edges, ∀ f ∈ edge.2, P f) : q.All P ∧ q.entries = p.entries := by
  induction edges generalizing p with
  | nil =>
    cases h
    exact ⟨hp, rfl⟩
  | cons edge edges ih =>
    rw [List.foldlM_cons] at h
    cases hr : follow owner n opcode p edge with
    | error => rw [hr] at h; cases h
    | ok r =>
      rw [hr] at h
      obtain ⟨hall, hentries⟩ := follow_keeps hunknown hr hp (hedges edge List.mem_cons_self)
      obtain ⟨hall', hentries'⟩ := ih h hall fun edge he => hedges edge (List.mem_cons_of_mem _ he)
      exact ⟨hall', hentries'.trans hentries⟩

theorem mem_successors {edge : Nat × List Frame} (h : edge ∈ successors n i stack) : ∀ f ∈ edge.2, f ∈ stack := by
  simp only [successors, List.mem_append, List.mem_map] at h
  obtain ⟨t, -, rfl⟩ | h := h
  · exact fun f hf => hf
  · split at h
    swap
    · cases h
    obtain rfl := List.mem_singleton.1 h
    dsimp only
    split
    · exact fun f hf => List.mem_of_mem_drop hf
    · exact fun f hf => hf

end Keeps

/-- Instruction `j` is a call that takes `count` frames. -/
def CallsWith (code : Array Instruction) (j count : Nat) : Prop :=
  ∃ kind m d, code[j]? = some ⟨.invoke kind, .method m⟩ ∧ MethodDescriptor.parse m.descriptor = .ok d ∧
    count = d.parameters.length + (if kind = .static then 0 else 1)

/-- A frame with arguments comes from a call that has an entry and takes so many. -/
def OfCall (code : Array Instruction) (entries : Array (Option FlowEntry)) (f : Frame) : Prop :=
  ∀ arguments, f.arguments? = some arguments → ∃ j e, f.source? = some j ∧ entries[j]? = some (some e) ∧
    CallsWith code j arguments.length

variable {p q : Progress}

theorem ofCall_of_eq_none {entries : Array (Option FlowEntry)} {f : Frame} (h : f.arguments? = none) :
    OfCall code entries f := by
  intro arguments hargs
  rw [h] at hargs
  cases hargs

/-- What a visit leaves in the stacks comes from calls, its own call included. -/
theorem visit_ofCall (hsize : p.entries.size = code.size) (hp : p.All (OfCall code p.entries))
    (h : visit owner code n p = .ok q) : q.entries.size = code.size ∧ q.All (OfCall code q.entries) := by
  rw [visit] at h
  split at h
  swap
  · cases h
    exact ⟨hsize, hp⟩
  rename_i i stack hi hstack
  split at h
  · cases h
  rename_i e after htransfer
  have hn : n < p.entries.size := hsize ▸ (Array.getElem?_eq_some_iff.1 hi).1
  -- entries are only added or replaced
  have hkept : ∀ f, OfCall code p.entries f → OfCall code (p.entries.setIfInBounds n (some e)) f := by
    intro f hf arguments hargs
    obtain ⟨j, e', hsource, he', hcall⟩ := hf arguments hargs
    by_cases hj : j = n
    · exact ⟨j, e, hsource, by simp [hj, hn], hcall⟩
    · exact ⟨j, e', hsource, by rwa [Array.getElem?_setIfInBounds_ne (Ne.symm hj)], hcall⟩
  have hafter : ∀ f ∈ after, OfCall code (p.entries.setIfInBounds n (some e)) f := by
    intro f hf arguments hargs
    obtain ⟨hframes, harguments⟩ := transfer_leaves htransfer
    have hold : f ∈ stack → _ := fun hf => hkept f (hp n stack hstack f hf) arguments hargs
    obtain hf | hf := hframes f hf
    · exact hold hf
    obtain ⟨kind, m, rfl⟩ | ⟨-, -, hf⟩ := harguments f hf (by rw [hargs]; rfl)
    · obtain ⟨d, hd, hlength, hproduced, -⟩ := transfer_call htransfer
      obtain rfl := Option.some.inj (hproduced.symm.trans hf)
      obtain rfl : e.consumed = arguments := Option.some.inj hargs
      exact ⟨n, e, rfl, by simp [hn], kind, m, d, hi, hd, hlength⟩
    · exact hold hf
  obtain ⟨hall, hentries⟩ := follow_all_keeps (P := OfCall code (p.entries.setIfInBounds n (some e)))
    (fun _ _ => ofCall_of_eq_none rfl) h (fun m s hm f hf => hkept f (hp m s hm f hf))
    fun edge hedge f hf => hafter f (mem_successors hedge f hf)
  rw [hentries]
  exact ⟨by rwa [Array.size_setIfInBounds], hall⟩

theorem iterate_ofCall {fuel : Nat} (hsize : p.entries.size = code.size) (hp : p.All (OfCall code p.entries))
    (h : iterate owner code fuel p = .ok q) : q.All (OfCall code q.entries) := by
  induction fuel generalizing p with
  | zero => cases h
  | succ fuel ih =>
    rw [iterate] at h
    split at h
    · cases h
      exact hp
    · rename_i rest _
      split at h
      · cases h
      · rename_i hr
        obtain ⟨hsize', hp'⟩ := visit_ofCall (p := { p with pending := rest }) hsize hp hr
        exact ih hsize' hp' h

theorem solve_ofCall {b : MethodBody} (h : solve owner b = .ok p) : p.All (OfCall b.instructions p.entries) := by
  rw [solve] at h
  split at h
  · cases h
    intro n stack hn
    simp [Progress.at?] at hn
  · refine iterate_ofCall (by simp [Progress.start]; rfl) (fun n stack hn => ?_) h
    obtain ⟨-, rfl⟩ := at?_start hn
    intro f hf
    cases hf

/-! ### Accepted bodies -/

/-- The instruction casts a frame that has the arguments and comes from instruction `j`. -/
def CastsFrom (code : Array Instruction) (n : Nat) (e : FlowEntry) (j : Nat) (arguments : List Frame) : Prop :=
  ∃ operand f, code[n]? = some ⟨.checkCast, operand⟩ ∧ e.consumed = [f] ∧ f.arguments? = some arguments ∧
    f.source? = some j

variable {b : MethodBody} {a : Analysis} {arguments : List Frame}

theorem callArguments_eq_some : a.callArguments? n = some arguments ↔
    ∃ e f, a.entry? n = some e ∧ e.produced = some f ∧ f.arguments? = some arguments := by
  simp only [Analysis.callArguments?, Option.bind_eq_bind, Option.bind_eq_some_iff]
  constructor
  · rintro ⟨e, he, f, hf, hargs⟩
    exact ⟨e, f, he, hf, hargs⟩
  · rintro ⟨e, f, he, hf, hargs⟩
    exact ⟨e, he, f, hf, hargs⟩

theorem path_of_entry (h : analyze owner b = .ok a) (he : a.entry? n = some e) :
    ∃ path, Path b.instructions path n := by
  obtain ⟨q, hq, rfl⟩ := analyze_eq_ok.1 h
  exact ((decides_search (search_solve owner b)).reached q hq n).1 ⟨e, Option.join_eq_some_iff.1 he⟩

/-- What an entry tells: the effect of its instruction on a stack of frames that come from calls. -/
theorem entry_ofCall (h : analyze owner b = .ok a) (he : a.entry? n = some e) : ∃ i stack after,
    b.instructions[n]? = some i ∧ transfer owner n i stack = .ok (e, after) ∧
      ∀ f ∈ stack, OfCall b.instructions a.entries f := by
  obtain ⟨q, hq, rfl⟩ := analyze_eq_ok.1 h
  obtain ⟨hsound, hpending⟩ := sound_solve hq
  have he' := Option.join_eq_some_iff.1 he
  obtain ⟨stack, hstack⟩ := hsound.reached n e he'
  obtain ⟨i, e₁, after, hi, htransfer, he₁, -⟩ := hsound.settled n (by simp [hpending]) stack hstack
  obtain rfl : e = e₁ := Option.some.inj (Option.some.inj (he'.symm.trans he₁))
  exact ⟨i, stack, after, hi, htransfer, solve_ofCall hq n stack hstack⟩

/-- Arguments are those of the call at the instruction, or those of a call whose result it casts. -/
theorem callArguments_spec (h : analyze owner b = .ok a) (hargs : a.callArguments? n = some arguments) :
    ∃ j e, (∃ path, Path b.instructions path j) ∧ CallsWith b.instructions j arguments.length ∧
      a.entry? n = some e ∧ (j = n ∧ e.consumed = arguments ∨ CastsFrom b.instructions n e j arguments) := by
  obtain ⟨e, f, he, hf, hargs⟩ := callArguments_eq_some.1 hargs
  obtain ⟨i, stack, after, hi, htransfer, hstack⟩ := entry_ofCall h he
  obtain ⟨kind, m, rfl⟩ | ⟨hcast, htaken, hmem⟩ :=
    (transfer_leaves htransfer).arguments f hf (by rw [hargs]; rfl)
  · obtain ⟨d, hd, hlength, hproduced, -⟩ := transfer_call htransfer
    obtain rfl := Option.some.inj (hproduced.symm.trans hf)
    obtain rfl : e.consumed = arguments := Option.some.inj hargs
    exact ⟨n, e, path_of_entry h he, ⟨kind, m, d, hi, hd, hlength⟩, he, .inl ⟨rfl, rfl⟩⟩
  · obtain ⟨j, e', hsource, he', hcalls⟩ := hstack f hmem arguments hargs
    obtain ⟨opcode, operand⟩ := i
    obtain rfl : opcode = .checkCast := hcast
    exact ⟨j, e, path_of_entry h (Option.join_eq_some_iff.2 he'), hcalls, he,
      .inr ⟨operand, f, hi, htaken, hargs, hsource⟩⟩

/-- In an accepted body the instructions with arguments are those calls that some path reaches and, of the
reachable casts, those that take a frame with arguments. A call has the frames that it takes, one for each
parameter of its descriptor and one for its receiver unless it is static; a cast has as many as the reachable
call that its frame comes from. -/
theorem callArguments_iff (h : analyze owner b = .ok a) :
    (∀ n, (a.callArguments? n).isSome = true ↔ (∃ path, Path b.instructions path n) ∧
      ∃ i e, b.instructions[n]? = some i ∧ a.entry? n = some e ∧
        (i.opcode.isInvoke = true ∨ ∃ j arguments, CastsFrom b.instructions n e j arguments)) ∧
    ∀ n arguments, a.callArguments? n = some arguments → ∃ j e,
      (∃ path, Path b.instructions path j) ∧ CallsWith b.instructions j arguments.length ∧ a.entry? n = some e ∧
      (j = n ∧ e.consumed = arguments ∨ CastsFrom b.instructions n e j arguments) := by
  refine ⟨fun n => ⟨fun hsome => ?_, ?_⟩, fun n arguments => callArguments_spec h⟩
  · obtain ⟨arguments, hargs⟩ := Option.isSome_iff_exists.1 hsome
    obtain ⟨j, e, -, hcalls, he, hwhere⟩ := callArguments_spec h hargs
    refine ⟨path_of_entry h he, ?_⟩
    obtain ⟨rfl, -⟩ | ⟨operand, f, hi, hcast⟩ := hwhere
    · obtain ⟨kind, m, d, hi, -⟩ := hcalls
      exact ⟨_, e, hi, he, .inl rfl⟩
    · exact ⟨_, e, hi, he, .inr ⟨j, arguments, operand, f, hi, hcast⟩⟩
  · rintro ⟨-, i, e, hi, he, hinvoke | ⟨j, arguments, operand, f, hcast, htaken, hargs, -⟩⟩
    · obtain ⟨i', stack, after, hi', htransfer, -⟩ := entry_ofCall h he
      obtain rfl := Option.some.inj (hi.symm.trans hi')
      obtain ⟨kind, m, rfl⟩ := exists_invoke htransfer hinvoke
      obtain ⟨d, -, -, hproduced, -⟩ := transfer_call htransfer
      exact Option.isSome_iff_exists.2 ⟨_, callArguments_eq_some.2 ⟨e, _, he, hproduced, rfl⟩⟩
    · obtain ⟨i', stack, after, hi', htransfer, -⟩ := entry_ofCall h he
      obtain rfl := Option.some.inj (hcast.symm.trans hi')
      have hproduced : e.produced = some f := by
        cases stack <;> cases htransfer
        cases htaken
        rfl
      exact Option.isSome_iff_exists.2 ⟨_, callArguments_eq_some.2 ⟨e, f, he, hproduced, hargs⟩⟩

/-- The result of a call is cast. -/
def castResult : MethodBody :=
  { instructions := #[⟨.aconstNull, .none⟩,
      ⟨.invoke .static, .method ⟨"A", "get", "(Ljava/lang/String;)Ljava/lang/Object;"⟩⟩,
      ⟨.checkCast, .classRef "java/lang/String"⟩, ⟨.valueReturn .ref, .none⟩]
    maxLocals := 0 }

theorem callArguments_iff_castResult : ∃ a, analyze "A" castResult = .ok a ∧
    (a.callArguments? 1).isSome = true ∧
    ∀ n arguments, a.callArguments? n = some arguments → ∃ j e,
      (∃ path, Path castResult.instructions path j) ∧ CallsWith castResult.instructions j arguments.length ∧
      a.entry? n = some e ∧
      (j = n ∧ e.consumed = arguments ∨ CastsFrom castResult.instructions n e j arguments) := by
  obtain ⟨a, ha⟩ : ∃ a, analyze "A" castResult = .ok a := ⟨_, rfl⟩
  obtain ⟨hsome, hspec⟩ := callArguments_iff ha
  refine ⟨a, ha, (hsome 1).2 ⟨⟨[0], .next (.start (by decide)) rfl rfl⟩, ?_⟩, hspec⟩
  cases ha
  exact ⟨_, _, rfl, rfl, .inl rfl⟩

/-- A cast has arguments and is no call. -/
theorem cast_hasArguments : ∃ a, analyze "A" castResult = .ok a ∧ (a.callArguments? 2).isSome = true ∧
    ∀ i, castResult.instructions[2]? = some i → i.opcode.isInvoke = false := by
  refine ⟨_, rfl, rfl, ?_⟩
  rintro i ⟨⟩
  rfl

end Jvm.Flow
