import Jvm.Proofs.Machine.Blame
import Jvm.Proofs.Machine.Natives

/-!
# Instructions and calls are built like any action

What an instruction does is built from the actions that a machine offers and from the calls and set-ups that
it makes (`Step.alike_execute`), and so is what a provider does with a call (`Provider.alike_invoke`). What a
run preserves is then shown for the runs themselves only, by induction on their fuel.
-/

namespace Jvm

open Exec (Any)

variable {E : Setting}

/-! ### Instructions -/

namespace Step

/-- The two actions are built alike for every activation. -/
def Alike {α : Type} (E : Setting) (m m' : Step α) : Prop := ∀ a, Exec.Alike E Any (m a) (m' a)

namespace Alike

variable {α β : Type}

theorem pure (x : α) : Alike E (Pure.pure x) (Pure.pure x) := fun _ => .value _

theorem bind {m m' : Step α} {f g : α → Step β} (hm : Alike E m m') (hfg : ∀ x, Alike E (f x) (g x)) :
    Alike E (m >>= f) (m' >>= g) := fun a => (hm a).next fun p => hfg p.1 p.2

theorem lift {P : α → Prop} {x y : Exec α} (h : Exec.Alike E P x y) : Alike E (liftM x) (liftM y) :=
  fun _ => h.any.next fun _ => .value _

theorem liftExcept (r : Except Fault α) : Alike E (liftM r) (liftM r) := lift (.ofExcept r)

theorem read : Alike E (MonadReader.read : Step World) MonadReader.read := lift .read

theorem get : Alike E MonadState.get MonadState.get := fun a => .value (a, a)

theorem locals (locals : Locals) : Alike E (modify ({ · with locals })) (modify ({ · with locals })) :=
  fun a => .value ((), { a with locals })

theorem liftStack (m : StackM α) : Alike E (liftM m) (liftM m) := by
  intro a
  cases hres : m a.stack with
  | ok x stack =>
    have happly : (liftM m : Step α) a = Pure.pure (x, { a with stack }) := by
      funext w s
      rw [liftStack_apply, hres]
      rfl
    rw [happly]
    exact .value _
  | error f stack =>
    have happly : (liftM m : Step α) a = Exec.fail f := by
      funext w s
      rw [liftStack_apply, hres]
      rfl
    rw [happly]
    exact .fail f

theorem mapM {γ : Type} {f : γ → Step α} (hf : ∀ c, Alike E (f c) (f c)) (cs : List γ) :
    Alike E (cs.mapM f) (cs.mapM f) := by
  induction cs with
  | nil => exact pure _
  | cons c cs ih =>
    rw [List.mapM_cons]
    exact bind (hf c) fun _ => bind ih fun _ => pure _

end Alike

end Step

/-- What the one hooks do is done for what the others do. -/
structure Hooks.Alike (E : Setting) (hooks hooks' : Hooks) : Prop where
  calls : ∀ c, E.calls (hooks.invoke c) (hooks'.invoke c)
  setUps : ∀ name, E.setUps (hooks.initClass name) (hooks'.initClass name)

namespace Hooks.Alike

variable {hooks hooks' : Hooks} (h : Hooks.Alike E hooks hooks')

include h

theorem invoke (c : Call) : Exec.Alike E Any (hooks.invoke c) (hooks'.invoke c) := .call (h.calls c)

theorem initClass (name : String) : Exec.Alike E Any (hooks.initClass name) (hooks'.initClass name) :=
  .setUp (h.setUps name)

end Hooks.Alike

namespace Step

variable {chain : Chain} {hooks hooks' : Hooks} {i : Instruction}

theorem alike_badOperand {α : Type} (expected : String) :
    Alike E (badOperand (α := α) i expected) (badOperand i expected) := .lift (P := Any) (.fail _)

theorem alike_push (v : Value) : Alike E (push v) (push v) := .liftStack _

theorem alike_member : Alike E (member i) (member i) := by
  unfold member
  split
  · exact .pure _
  · exact alike_badOperand _

theorem alike_bindMember {α : Type} {f g : MemberRef → Step α}
    (hfg : ∀ m, i.member? = some m → Alike E (f m) (g m)) : Alike E (member i >>= f) (member i >>= g) := by
  unfold member
  split
  · exact hfg _ ‹_›
  · have hbind : ∀ h : MemberRef → Step α, badOperand i "member reference" >>= h =
        badOperand i "member reference" := fun _ => rfl
    rw [hbind, hbind]
    exact alike_badOperand _

theorem alike_className : Alike E (className i) (className i) := by
  unfold className
  split
  · exact .pure _
  · exact alike_badOperand _

theorem alike_slot : Alike E (slot i) (slot i) := by
  unfold slot
  split
  · exact .pure _
  · exact alike_badOperand _

theorem alike_jumpTarget : Alike E (jumpTarget i) (jumpTarget i) := by
  unfold jumpTarget
  split
  · exact .pure _
  · exact alike_badOperand _

theorem alike_branchIf (taken : Bool) : Alike E (branchIf taken i) (branchIf taken i) := by
  unfold branchIf
  split
  · exact .bind alike_jumpTarget fun _ => .pure _
  · exact .pure _

theorem alike_constantValue (c : Constant) : Exec.Alike E Any (constantValue c) (constantValue c) := by
  cases c with
  | string text => exact (Exec.Alike.intern text).any
  | classRef name => exact (Exec.Alike.allocate (p := .classObject name) trivial).any
  | _ => exact .value _

theorem alike_replicateExec {α : Type} {P : α → Prop} {act : Exec α} (h : Exec.Alike E P act act) :
    ∀ n, Exec.Alike E (fun xs => ∀ x ∈ xs, P x) (replicateExec act n) (replicateExec act n)
  | 0 => .pure nofun
  | n + 1 => h.bind fun x hx => (alike_replicateExec h n).bind fun xs hxs => .pure fun y hy => by
      rcases List.mem_cons.1 hy with rfl | hy
      · exact hx
      · exact hxs y hy

theorem alike_newArrays (t : FieldType) (lengths : List Nat) :
    Exec.Alike E (·.isReferenceLike = true) (newArrays t lengths) (newArrays t lengths) := by
  fun_induction newArrays t lengths with
  | case1 component length =>
    exact .allocate (p := .array _) fun _ => ArrayObject.sound_ofComponent component length
  | case2 component length rest n ih =>
    refine (alike_replicateExec ih length).bind fun es hes => ?_
    refine .allocate (p := .array (.reference _ es.toArray)) fun _ v hv => hes v ?_
    simpa using hv
  | case3 => exact .fail _

theorem alike_getStatic (h : Hooks.Alike E hooks hooks') {m : MemberRef} (hm : E.searches m) :
    Exec.Alike E Any (getStatic hooks m) (getStatic hooks' m) := by
  refine (h.initClass m.owner).next fun _ => (Exec.Alike.resolveStatic hm).next fun p => ?_
  refine Exec.Alike.get (fun s _ => ?_) fun s t _ _ hst => ?_
  · split
    · exact .value _
    split
    · exact alike_constantValue _
    · exact (Exec.Alike.ofExcept _).next fun _ => .value _
  · simp only [State.static?, hst]

theorem alike_putStatic (h : Hooks.Alike E hooks hooks') {m : MemberRef} (hm : E.searches m) (hw : E.writes)
    (v : Value) : Exec.Alike E Any (putStatic hooks m v) (putStatic hooks' m v) :=
  (h.initClass m.owner).next fun _ => (Exec.Alike.resolveStatic hm).next fun p => .putStatic hw p.1 p.2.name v

theorem alike_invoke (h : Hooks.Alike E hooks hooks') (kind : InvokeKind) :
    Alike E (invoke hooks kind i) (invoke hooks' kind i) := by
  unfold invoke
  repeat' first
    | with_reducible first
      | exact .pure _ | exact alike_member | exact .liftExcept _ | exact .liftStack _
      | exact alike_push _ | exact .lift (h.invoke _) | exact .lift (h.initClass _)
      | exact .lift (.fail (P := Any) _)
      | refine Alike.bind ?_ fun _ => ?_
    | split

theorem alike_executeSimple (h : Hooks.Alike E hooks hooks')
    (hi : ∀ f, i.staticField? = some f → E.searches f) (hw : i.Writes → E.writes) :
    Alike E (executeSimple chain hooks i) (executeSimple chain hooks' i) := by
  unfold executeSimple
  split <;> dsimp only
  all_goals
    repeat' first
      | with_reducible first
        | exact .pure _ | exact .get | exact .locals _ | exact .liftExcept _ | exact .liftStack _
        | exact alike_push _ | exact alike_badOperand _
        | exact alike_member | exact alike_className | exact alike_slot
        | exact alike_invoke h _
        | exact .lift (alike_getStatic h (hi _ ((Instruction.staticField?_getStatic ‹_›).trans ‹_›)))
        | exact .lift (alike_putStatic h (hi _ ((Instruction.staticField?_putStatic ‹_›).trans ‹_›))
            (hw (Instruction.writes_putStatic ‹_›)) _)
        | exact .lift (h.initClass _)
        | exact .lift (alike_constantValue _) | exact .lift (alike_newArrays _ _)
        | exact .read | exact .lift (.look _) | exact .lift (.narrow _ _)
        | exact .lift (.className _) | exact .lift (.placeholder _)
        | exact .lift (.fail (P := Any) _)
        | refine .lift (.allocate ?_)
        | refine .lift (.modify View.mutable_array (fun h => absurd h (by decide)) _ ?_)
        | refine .lift (.modify View.mutable_record (fun _ => hw (Instruction.writes_putField ‹_›)) _ ?_)
        | refine .mapM (fun _ => ?_) _ | refine alike_bindMember fun _ _ => ?_
        | refine Alike.bind ?_ fun _ => ?_
      | exact fun _ => ArrayObject.sound_zeros _ _
      | exact fun _ => ArrayObject.sound_ofComponent _ _
      | exact fun _ ha hsound => ArrayObject.sound_put (ha hsound) _ _
      | exact fun _ _ => trivial
      | split

theorem alike_execute (h : Hooks.Alike E hooks hooks') (hi : ∀ f, i.staticField? = some f → E.searches f)
    (hw : i.Writes → E.writes) : Alike E (execute chain hooks i) (execute chain hooks' i) := by
  unfold execute
  split <;> dsimp only
  all_goals
    repeat' first
      | with_reducible first
        | exact .pure _ | exact .get | exact .liftExcept _ | exact .liftStack _
        | exact alike_badOperand _ | exact alike_branchIf _ | exact alike_jumpTarget
        | exact alike_executeSimple h hi hw | exact .lift (.look _)
        | exact .lift (.fail (P := Any) _)
        | refine Alike.bind ?_ fun _ => ?_
      | split

end Step

/-! ### Calls -/

/-- The call is that of the method by which methods are called by reflection. -/
def Call.Reflective (c : Call) : Prop := Library.IsInvoker c.member.owner c.member.signature

namespace ClassDictionary

variable {d : ClassDictionary} {owner name descriptor : String} {c : ClassFile} {index : Nat}

theorem get?_of_methodWithBody? (h : d.methodWithBody? owner name descriptor = some (c, index)) :
    d.get? owner = some c := by
  simp only [methodWithBody?, Option.bind_eq_bind, Option.bind_eq_some_iff] at h
  obtain ⟨c', hc, i, -, m, -, h⟩ := h
  split at h <;> cases h
  exact hc

theorem get?_of_resolveMethod? (h : d.resolveMethod? owner name descriptor = some (c, index)) :
    ∃ n, d.get? n = some c := by
  obtain ⟨n, -, hn⟩ := List.exists_of_findSome?_eq_some h
  exact ⟨n, get?_of_methodWithBody? hn⟩

/-- A call reaches methods of the program only. -/
theorem get?_of_target? {heap : Heap} {call : Call} (h : d.target? heap call = some (c, index)) :
    ∃ n, d.get? n = some c := by
  unfold target? at h
  dsimp only at h
  split at h
  · exact ⟨_, get?_of_methodWithBody? h⟩
  rcases Option.or_eq_some_iff.1 h with h | ⟨-, h⟩
  · split at h
    · simp only [Option.bind_eq_bind, Option.bind_eq_some_iff] at h
      obtain ⟨v, -, _, -, className, -, found, hfound, m, -, h⟩ := h
      split at h <;> cases h
      exact get?_of_resolveMethod? hfound
    · cases h
  · exact get?_of_resolveMethod? h

end ClassDictionary

theorem Catalog.key_of_find? {catalog : Catalog} {owner signature : String} {m : NativeMethod}
    (h : catalog.find? owner signature = some m) : m.owner = owner ∧ m.signature = signature := by
  simpa using List.find?_some h

variable {execute execute' : ClassFile → Method → List Value → Option Value → Exec Value}
  {handOn handOn' : Call → Exec Value} {c : Call}

/-- What answers a call is done for what answers it otherwise: executing a method of the program, and handing
on a call of a method that an object stands for, if the call is one by reflection. -/
structure Call.Answered (E : Setting) (c : Call)
    (execute execute' : ClassFile → Method → List Value → Option Value → Exec Value)
    (handOn handOn' : Call → Exec Value) : Prop where
  execute : ∀ owner m arguments receiver, m.Searches E.searches →
    E.calls (execute owner m arguments receiver) (execute' owner m arguments receiver)
  handOn : c.Reflective → ∀ next, E.reflects next.member → E.calls (handOn next) (handOn' next)

namespace Provider

/-- The only catalog of native methods is the library. -/
def Ordinary : Provider → Prop
  | native catalog => catalog = Catalog.library
  | _ => True

theorem alike_invokeNative (h : c.Answered E execute execute' handOn handOn') :
    Exec.Alike E Any ((native Catalog.library).invoke execute handOn c)
      ((native Catalog.library).invoke execute' handOn' c) := by
  unfold invoke
  dsimp only
  split
  · exact .fail _
  rename_i m hm
  obtain ⟨howner, hsignature⟩ := Catalog.key_of_find? hm
  refine (Library.alike_library m (List.mem_of_find?_eq_some hm) c).bind fun reply hreply => ?_
  split
  · exact .value _
  · rename_i next
    obtain ⟨hinvoker, hnext⟩ := hreply
    rw [howner, hsignature] at hinvoker
    refine (Exec.Alike.call (h.handOn hinvoker next hnext)).next fun v => ?_
    split <;> exact .value _

theorem alike_invokeMapped (h : c.Answered E execute execute' handOn handOn') :
    Exec.Alike E Any (mapped.invoke execute handOn c) (mapped.invoke execute' handOn' c) := by
  unfold invoke
  dsimp only
  refine Exec.Alike.world.bind fun w hw => Exec.Alike.get (fun s _ => ?_) fun s t _ hh _ => ?_
  · split
    · exact .fail _
    rename_i owner index htarget
    split
    · exact .fail _
    rename_i m hm
    obtain ⟨name, howner⟩ := ClassDictionary.get?_of_target? htarget
    have hsearches := (hw name owner howner m (List.mem_of_getElem? hm)).2
    have hexecute : ∀ arguments receiver, Exec.Alike E Any (execute owner m arguments receiver)
        (execute' owner m arguments receiver) := fun _ _ => .call (h.execute _ _ _ _ hsearches)
    split
    · exact hexecute _ _
    refine (Exec.Alike.ofExcept _).next fun this => ?_
    split
    · exact .fail _
    split
    · refine (Exec.Alike.look _).next fun constructed => ?_
      split
      · exact (Exec.Alike.construct this _ (p := .record []) rfl).next fun _ => hexecute _ _
      · exact hexecute _ _
    · exact hexecute _ _
  · rw [hh]

theorem alike_invoke {p : Provider} (hp : p.Ordinary) (h : c.Answered E execute execute' handOn handOn') :
    Exec.Alike E Any (p.invoke execute handOn c) (p.invoke execute' handOn' c) := by
  cases p with
  | native catalog =>
    obtain rfl : catalog = Catalog.library := hp
    exact alike_invokeNative h
  | comparison => exact .fail _
  | mapped => exact alike_invokeMapped h

end Provider

namespace Chain

/-- Native methods come from the library. -/
def Ordinary (chain : Chain) : Prop := ∀ p ∈ chain.providers, p.Ordinary

theorem ordinary_standard : standard.Ordinary := by
  intro p hp
  simp only [standard, List.mem_cons, List.not_mem_nil, or_false] at hp
  rcases hp with rfl | rfl | rfl
  · rfl
  · trivial
  · trivial

theorem alike_resolveWith {chain : Chain} (hchain : chain.Ordinary)
    (h : c.Answered E execute execute' handOn handOn') :
    Exec.Alike E Any (chain.resolveWith execute handOn c) (chain.resolveWith execute' handOn' c) := by
  refine Exec.Alike.read.next fun w => Exec.Alike.get (fun s _ => ?_) fun s t _ hh _ => ?_
  · split
    · rename_i p hp
      exact (Provider.alike_invoke (hchain p (List.mem_of_find?_eq_some hp)) h).map fun _ _ => trivial
    · exact .value _
  · rw [hh]

end Chain

end Jvm
