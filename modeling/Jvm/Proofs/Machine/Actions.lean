import Jvm.Machine.Run

/-!
# Actions, applied

What an action of the machine, or of a running method, comes to on a state: one equation for each way
of building it. The proofs about runs rewrite with these and never unfold the monads.
-/

namespace Jvm

namespace Exec

variable {α β : Type} {w : World} {s s' : State}

@[simp] theorem pure_apply (a : α) (w : World) (s : State) : (pure a : Exec α) w s = .ok a s := rfl

theorem bind_apply (x : Exec α) (f : α → Exec β) (w : World) (s : State) :
    (x >>= f) w s = match x w s with
      | .ok a s => f a w s
      | .error e s => .error e s := by
  change EStateM.bind (x w) (fun a => f a w) s = _
  rw [EStateM.bind]
  cases x w s <;> rfl

@[simp] theorem fail_apply (f : Fault) (w : World) (s : State) :
    (fail f : Exec α) w s = .error (.error (.emulation f)) s := rfl

@[simp] theorem throw_apply (e : Stop) (w : World) (s : State) : (throw e : Exec α) w s = .error e s := rfl

@[simp] theorem read_apply (w : World) (s : State) : (read : Exec World) w s = .ok w s := rfl

@[simp] theorem get_apply (w : World) (s : State) : (get : Exec State) w s = .ok s s := rfl

@[simp] theorem set_apply (t : State) (w : World) (s : State) : (set t : Exec Unit) w s = .ok () t := rfl

theorem ofExcept_apply (r : Except Fault α) (w : World) (s : State) :
    (liftM r : Exec α) w s = match r with
      | .ok a => .ok a s
      | .error f => .error (.error (.emulation f)) s := by
  cases r <;> rfl

theorem readHeap_apply (f : Heap → Except Fault α) (w : World) (s : State) :
    readHeap f w s = match f s.heap with
      | .ok a => .ok a s
      | .error f => .error (.error (.emulation f)) s := by
  rw [readHeap, bind_apply, get_apply]
  exact ofExcept_apply (f s.heap) w s

/-- Looking at the heap changes nothing. -/
theorem state_readHeap {f : Heap → Except Fault α} {a : α} (h : readHeap f w s = .ok a s') : s' = s := by
  rw [readHeap_apply] at h
  cases hf : f s.heap with
  | error => simp only [hf] at h; cases h
  | ok b => simp only [hf] at h; cases h; rfl

theorem pushFrame_apply (owner name : String) (line : Int32) (w : World) (s : State) :
    pushFrame owner name line w s =
      if w.limits.callDepth ≤ s.frames.length then
        .error (.error (.emulation (.callDepth (s.frames.length + 1) w.limits.callDepth))) s
      else .ok () { s with frames := CallFrame.ofMethod owner name line :: s.frames } := by
  rw [pushFrame, bind_apply, get_apply]
  dsimp only
  rw [bind_apply, read_apply]
  dsimp only
  split <;> rfl

theorem popFrame_apply (w : World) (s : State) :
    popFrame w s = match s.frames with
      | f :: frames => .ok f { s with frames }
      | [] => .error (.error (.emulation .callStackUnderflow)) s := by
  rw [popFrame, bind_apply, get_apply]
  dsimp only
  cases s.frames <;> rfl

theorem tick_apply (w : World) (s : State) :
    tick w s =
      if w.limits.instructions ≠ 0 ∧ w.limits.instructions.toNat ≤ s.steps then
        .error (.error (.emulation (.instructionLimit s.steps w.limits.instructions.toNat))) s
      else .ok () { s with steps := s.steps + 1 } := by
  rw [tick, bind_apply, get_apply]
  dsimp only
  rw [bind_apply, read_apply]
  dsimp only
  split <;> rfl

theorem readClock_apply (w : World) (s : State) :
    readClock w s = .ok (w.clock s.readings) { s with readings := s.readings + 1 } := rfl

theorem markStarted_apply (name : String) (w : World) (s : State) :
    markStarted name w s =
      if name ∈ s.started then .ok false s
      else .ok true { s with started := name :: s.started } := by
  rw [markStarted, bind_apply, get_apply]
  dsimp only
  by_cases h : name ∈ s.started
  · rw [if_pos (List.contains_iff_mem.2 h), if_pos h]
    rfl
  · rw [if_neg (fun hc => h (List.contains_iff_mem.1 hc)), if_neg h]
    rfl

theorem bind_ok {x : Exec α} {f : α → Exec β} {b : β} (h : (x >>= f) w s = .ok b s') :
    ∃ a t, x w s = .ok a t ∧ f a w t = .ok b s' := by
  rw [bind_apply] at h
  split at h
  · exact ⟨_, _, ‹_›, h⟩
  · cases h

theorem bind_error {x : Exec α} {f : α → Exec β} {e : Stop} (h : (x >>= f) w s = .error e s') :
    x w s = .error e s' ∨ ∃ a t, x w s = .ok a t ∧ f a w t = .error e s' := by
  rw [bind_apply] at h
  split at h
  · exact .inr ⟨_, _, ‹_›, h⟩
  · cases h
    exact .inl ‹_›

theorem ofExcept_ok {r : Except Fault α} {a : α} (h : (liftM r : Exec α) w s = .ok a s') :
    r = .ok a ∧ s' = s := by
  cases r with
  | error => cases h
  | ok b => cases h; exact ⟨rfl, rfl⟩

theorem withFrame_apply (owner name : String) (line : Int32) (act : Exec α) (w : World) (s : State) :
    withFrame owner name line act w s = match pushFrame owner name line w s with
      | .ok _ t =>
        match act w t with
        | .ok a u =>
          match popFrame w u with
          | .ok _ s' => .ok a s'
          | .error e s' => .error e s'
        | .error e u => .error e { u with frames := u.frames.drop 1 }
      | .error e t => .error e t := by
  refine (bind_apply _ _ w s).trans ?_
  cases pushFrame owner name line w s <;> rfl

theorem withFrame_ok {owner name : String} {line : Int32} {act : Exec α} {a : α}
    (h : withFrame owner name line act w s = .ok a s') : ∃ t u f,
      pushFrame owner name line w s = .ok () t ∧ act w t = .ok a u ∧ popFrame w u = .ok f s' := by
  rw [withFrame_apply] at h
  cases hpush : pushFrame owner name line w s with
  | error => simp only [hpush] at h; cases h
  | ok _ t =>
    cases hact : act w t with
    | error => simp only [hpush, hact] at h; cases h
    | ok b u =>
      cases hpop : popFrame w u with
      | error => simp only [hpush, hact, hpop] at h; cases h
      | ok f v =>
        simp only [hpush, hact, hpop] at h
        cases h
        exact ⟨t, u, f, rfl, hact, hpop⟩

end Exec

/-! ### Actions on the heap alone -/

namespace Heap

variable {α : Type} {h h' : Heap} {v : Value} {p : Payload}

def looking (f : Heap → Except Fault α) (h : Heap) : Except Fault (α × Heap) := (f h).map (·, h)

def making (className : String) (p : Option Payload) (h : Heap) : Except Fault (Value × Heap) :=
  h.checkRoom.map fun _ => h.push className p

def constructing (v : Value) (expected : String) (p : Payload) (h : Heap) : Except Fault (Unit × Heap) :=
  (h.unconstructed v expected).map fun id => ((), h.setPayload id p)

def editing (view : View α) (v : Value) (f : α → α) (h : Heap) : Except Fault (Unit × Heap) :=
  (h.narrow view v).bind fun _ => (idOf v).map fun id => ((), h.edit view id f)

def interning (text : Units) (h : Heap) : Except Fault (Value × Heap) :=
  match h.interned? text with
  | some id => .ok (.ref id, h)
  | none => h.checkRoom.map fun _ => h.pushInterned text

theorem looking_ok {f : Heap → Except Fault α} {a : α} (hx : looking f h = .ok (a, h')) : f h = .ok a ∧ h' = h := by
  rw [looking] at hx
  cases hf : f h with
  | error => rw [hf] at hx; cases hx
  | ok b => rw [hf] at hx; cases hx; exact ⟨rfl, rfl⟩

/-- There is room for another object where it is not refused. -/
theorem size_lt_of_checkRoom {u : Unit} (hr : h.checkRoom = .ok u) : h.size < h.limit := by
  unfold checkRoom at hr
  split at hr
  · cases hr
  · omega

theorem checkRoom_error {e : Fault} (hr : h.checkRoom = .error e) : e = .heapLimit h.limit := by
  unfold checkRoom at hr
  split at hr <;> cases hr
  rfl

theorem making_error {className : String} {p : Option Payload} {e : Fault} (hx : making className p h = .error e) :
    e = .heapLimit h.limit := by
  rw [making] at hx
  cases hr : h.checkRoom with
  | error => rw [hr] at hx; cases hx; exact checkRoom_error hr
  | ok => rw [hr] at hx; cases hx

theorem interning_error {text : Units} {e : Fault} (hx : interning text h = .error e) : e = .heapLimit h.limit := by
  rw [interning] at hx
  cases hi : h.interned? text with
  | some id => simp only [hi] at hx; cases hx
  | none =>
    simp only [hi] at hx
    cases hr : h.checkRoom with
    | error => rw [hr] at hx; cases hx; exact checkRoom_error hr
    | ok => rw [hr] at hx; cases hx

theorem making_ok {className : String} {p : Option Payload} (hx : making className p h = .ok (v, h')) :
    h.size < h.limit ∧ v = .ref h.size ∧ h' = (h.push className p).2 := by
  rw [making] at hx
  cases hr : h.checkRoom with
  | error => rw [hr] at hx; cases hx
  | ok => rw [hr] at hx; cases hx; exact ⟨size_lt_of_checkRoom hr, rfl, rfl⟩

theorem constructing_ok {expected : String} {u : Unit} (hx : constructing v expected p h = .ok (u, h')) :
    ∃ id, h.unconstructed v expected = .ok id ∧ h' = h.setPayload id p := by
  rw [constructing] at hx
  cases hr : h.unconstructed v expected with
  | error => rw [hr] at hx; cases hx
  | ok id => rw [hr] at hx; cases hx; exact ⟨id, rfl, rfl⟩

theorem editing_ok {view : View α} {f : α → α} {u : Unit} (hx : editing view v f h = .ok (u, h')) :
    ∃ id, h' = h.edit view id f := by
  rw [editing] at hx
  cases hn : h.narrow view v with
  | error => rw [hn] at hx; cases hx
  | ok a =>
    cases hi : idOf v with
    | error => rw [hn, hi] at hx; cases hx
    | ok id => rw [hn, hi] at hx; cases hx; exact ⟨id, rfl⟩

/-- A text that was interned leads to its object, and another one to a new object. -/
theorem interning_ok {text : Units} (hx : interning text h = .ok (v, h')) :
    (∃ id, h.interned? text = some id ∧ v = .ref id ∧ h' = h) ∨
      h.interned? text = none ∧ h.size < h.limit ∧ v = .ref h.size ∧ h' = (h.pushInterned text).2 := by
  rw [interning] at hx
  cases hi : h.interned? text with
  | some id =>
    simp only [hi] at hx
    cases hx
    exact .inl ⟨id, rfl, rfl, rfl⟩
  | none =>
    simp only [hi] at hx
    cases hr : h.checkRoom with
    | error => rw [hr] at hx; cases hx
    | ok => rw [hr] at hx; cases hx; exact .inr ⟨rfl, size_lt_of_checkRoom hr, rfl, rfl⟩

end Heap

namespace Exec

variable {α : Type}

/-- The action does this to the heap and nothing to the rest of the state. -/
def OnHeap (x : Exec α) (f : Heap → Except Fault (α × Heap)) : Prop :=
  ∀ w s, x w s = match f s.heap with
    | .ok (a, heap) => .ok a { s with heap }
    | .error e => .error (.error (.emulation e)) s

theorem OnHeap.of_ok {x : Exec α} {f : Heap → Except Fault (α × Heap)} (hx : OnHeap x f) {w : World} {s t : State}
    {a : α} (h : x w s = .ok a t) : f s.heap = .ok (a, t.heap) := by
  rw [hx] at h
  cases hf : f s.heap with
  | error => rw [hf] at h; cases h
  | ok p => rw [hf] at h; cases h; rfl

theorem OnHeap.of_error {x : Exec α} {f : Heap → Except Fault (α × Heap)} (hx : OnHeap x f) {w : World} {s t : State}
    {e : Stop} (h : x w s = .error e t) : ∃ f', f s.heap = .error f' ∧ e = .error (.emulation f') := by
  rw [hx] at h
  cases hf : f s.heap with
  | error f' => rw [hf] at h; cases h; exact ⟨f', rfl, rfl⟩
  | ok p => rw [hf] at h; cases h

theorem onHeap_readHeap (f : Heap → Except Fault α) : OnHeap (readHeap f) (Heap.looking f) := by
  intro w s
  rw [readHeap_apply, Heap.looking]
  cases f s.heap <;> rfl

theorem onHeap_make (className : String) (p : Option Payload) :
    OnHeap (make className p) (Heap.making className p) := by
  intro w s
  rw [make, bind_apply, readHeap_apply, Heap.making]
  cases s.heap.checkRoom <;> rfl

theorem onHeap_construct (v : Value) (expected : String) (p : Payload) :
    OnHeap (construct v expected p) (Heap.constructing v expected p) := by
  intro w s
  rw [construct, bind_apply, readHeap_apply, Heap.constructing]
  cases s.heap.unconstructed v expected <;> rfl

theorem onHeap_modify (view : View α) (v : Value) (f : α → α) : OnHeap (modify view v f) (Heap.editing view v f) := by
  intro w s
  rw [modify, bind_apply, narrow, readHeap_apply, Heap.editing]
  cases s.heap.narrow view v with
  | error => rfl
  | ok a =>
    dsimp only
    cases Heap.idOf v <;> rfl

theorem onHeap_intern (text : Units) : OnHeap (intern text) (Heap.interning text) := by
  intro w s
  rw [intern, bind_apply, get_apply, Heap.interning]
  dsimp only
  cases s.heap.interned? text with
  | some id => rfl
  | none =>
    dsimp only
    rw [bind_apply, readHeap_apply]
    cases s.heap.checkRoom <;> rfl

end Exec

theorem OperandStack.bind_apply {α β : Type} (m : StackM α) (f : α → StackM β) (stack : OperandStack) :
    (m >>= f) stack = match m stack with
      | .ok x stack => f x stack
      | .error e stack => .error e stack := by
  change EStateM.bind m f stack = _
  rw [EStateM.bind]
  cases m stack <;> rfl

namespace Step

variable {α β : Type} {a a' : Activation} {w : World} {s s' : State}

@[simp] theorem pure_apply (x : α) (a : Activation) (w : World) (s : State) :
    (pure x : Step α) a w s = .ok (x, a) s := rfl

theorem bind_apply (m : Step α) (f : α → Step β) (a : Activation) (w : World) (s : State) :
    (m >>= f) a w s = match m a w s with
      | .ok (x, a) s => f x a w s
      | .error e s => .error e s := by
  change EStateM.bind (m a w) (fun p => f p.1 p.2 w) s = _
  rw [EStateM.bind]
  cases m a w s <;> rfl

@[simp] theorem get_apply (a : Activation) (w : World) (s : State) :
    (get : Step Activation) a w s = .ok (a, a) s := rfl

@[simp] theorem modify_apply (f : Activation → Activation) (a : Activation) (w : World) (s : State) :
    (modify f : Step Unit) a w s = .ok ((), f a) s := rfl

theorem lift_apply (act : Exec α) (a : Activation) (w : World) (s : State) :
    (liftM act : Step α) a w s = match act w s with
      | .ok x s => .ok (x, a) s
      | .error e s => .error e s := by
  change EStateM.bind (act w) _ s = _
  rw [EStateM.bind]
  cases act w s <;> rfl

theorem liftStack_apply (m : StackM α) (a : Activation) (w : World) (s : State) :
    (liftM m : Step α) a w s = match m a.stack with
      | .ok x stack => .ok (x, { a with stack }) s
      | .error f _ => .error (.error (.emulation f)) s := by
  change onStack m a w s = _
  rw [onStack, bind_apply, get_apply]
  dsimp only
  cases m a.stack <;> rfl

theorem liftExcept_apply (r : Except Fault α) (a : Activation) (w : World) (s : State) :
    (liftM r : Step α) a w s = match r with
      | .ok x => .ok (x, a) s
      | .error f => .error (.error (.emulation f)) s := by
  cases r <;> rfl

theorem bind_ok {m : Step α} {f : α → Step β} {p : β × Activation}
    (h : (m >>= f) a w s = .ok p s') : ∃ x a₁ s₁, m a w s = .ok (x, a₁) s₁ ∧ f x a₁ w s₁ = .ok p s' := by
  rw [bind_apply] at h
  split at h
  · exact ⟨_, _, _, ‹_›, h⟩
  · cases h

end Step

end Jvm
