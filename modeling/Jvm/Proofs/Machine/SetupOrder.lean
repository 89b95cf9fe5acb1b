import Jvm.Proofs.Machine.Resolution
import Jvm.Proofs.Machine.Throughout

/-!
# The order in which classes are set up

A class is noted before its superclass is set up, so the classes that are noted are not closed under
superclasses all the time: the call for the superclass is still to come, and only for its name there may be a
gap. What holds between calls (`Chain.Sound`) therefore has one exempt name, and a call for the set-up of just
that name closes the gap. A noted class has been set up by its own code, has none, or is on the way, which is
counted: more calls for it have begun than have returned.

How often a code has begun is counted for a stretch of the history, together with what is noted at its ends
(`Chain.Course.marks`): by itself, a bound on the number would not say that the code of a class that has just
been noted has not begun yet.
-/

namespace Jvm

open Relation (TransGen)

namespace Event

/-- The set-up of the class is called for. -/
def isCall (name : String) : Event → Bool
  | asks n => n == name
  | _ => false

/-- A call for the set-up of the class returns. -/
def isReturn (name : String) : Event → Bool
  | settles n | fails n => n == name
  | _ => false

/-- The code of the class begins. -/
def isStart (name : String) : Event → Bool
  | starts n => n == name
  | _ => false

/-- Has to do with the set-up of a class. -/
def ofSetUp : Event → Bool
  | asks _ | settles _ | fails _ | starts _ => true
  | _ => false

variable {e : Event} {name other : String}

theorem isCall_eq_false (he : e.ofSetUp = false) : e.isCall name = false := by cases e <;> first | rfl | cases he

theorem isReturn_eq_false (he : e.ofSetUp = false) : e.isReturn name = false := by
  cases e <;> first | rfl | cases he

theorem isStart_eq_false (he : e.ofSetUp = false) : e.isStart name = false := by
  cases e <;> first | rfl | cases he

end Event

/-- How often something has happened. -/
def times (p : Event → Bool) (L : List Moment) : Nat := L.countP fun m => p m.event

section

variable {p : Event → Bool} {L M : List Moment} {m : Moment}

@[simp] theorem times_append : times p (L ++ M) = times p L + times p M := List.countP_append

@[simp] theorem times_nil : times p [] = 0 := rfl

@[simp] theorem times_cons : times p (m :: L) = times p L + if p m.event then 1 else 0 := List.countP_cons

end

/-- A call for the set-up of the class is going on. -/
def Pending (L : List Moment) (name : String) : Prop :=
  times (Event.isReturn name) L < times (Event.isCall name) L

/-- No call for the set-up of a class has returned an error. -/
def Smooth (L : List Moment) : Prop := ∀ m ∈ L, ∀ name, m.event ≠ .fails name

theorem Smooth.left {L M : List Moment} (h : Smooth (L ++ M)) : Smooth L := fun m hm => h m (List.mem_append_left _ hm)

theorem not_smooth {L : List Moment} {name : String} {s : State} : ¬ Smooth (L ++ [⟨.fails name, s⟩]) :=
  fun h => h _ (List.mem_append_right _ (List.mem_singleton_self _)) name rfl

namespace ClassDictionary

variable {d : ClassDictionary} {name above : String} {L M : List Moment}

/-- The code of the class has come to its end, if it has any. -/
def Finished (d : ClassDictionary) (L : List Moment) (name : String) : Prop :=
  ∀ c, d.get? name = some c → c.setup? = none ∨ ∃ m ∈ L, m.event = .completes name

/-- Whenever the code of a class begins, the classes above it are noted, and the code of each has come to its end
unless a call for the set-up of that class is going on. -/
def Ordered (d : ClassDictionary) : List Moment → Prop :=
  AtEach fun K m => ∀ name, m.event = .starts name → Smooth K →
    ∀ above, TransGen d.Super name above → above ∈ m.state.started ∧ (d.Finished K above ∨ Pending K above)

theorem Finished.append (h : d.Finished L name) : d.Finished (L ++ M) name := by
  intro c hc
  obtain hsetup | ⟨m, hm, hcomplete⟩ := h c hc
  · exact .inl hsetup
  · exact .inr ⟨m, List.mem_append_left _ hm, hcomplete⟩

theorem Ordered.append {m : Moment} (h : d.Ordered L) (hm : ∀ name, m.event ≠ .starts name) :
    d.Ordered (L ++ [m]) := h.concat fun name hname => absurd hname (hm name)

end ClassDictionary

/-- One if the class has been noted. -/
def State.marked (s : State) (name : String) : Nat := if name ∈ s.started then 1 else 0

theorem State.marked_le (s : State) (name : String) : s.marked name ≤ 1 := by
  unfold marked
  split <;> omega

theorem State.marked_le_cons (s : State) (name other : String) :
    s.marked other ≤ State.marked { s with started := name :: s.started } other := by
  unfold marked
  split
  · rw [if_pos (List.mem_cons_of_mem _ ‹_›)]
  · exact Nat.zero_le _

theorem State.marked_eq_one {s : State} {name : String} : s.marked name = 1 ↔ name ∈ s.started := by
  unfold marked
  split <;> simp_all

/-- A class whose set-up is called for need not have been noted. -/
def Task.exempt : Task → Option String
  | initClass name => some name
  | _ => none

namespace Chain

variable {chain : Chain} {w : World} {d : ClassDictionary} {n : Nat} {x : Option String} {L M h h' : List Moment}
  {s t u : State} {name : String}

/-- What holds of the history so far and the present state between the calls for the set-up of classes; of one
name it may be exempt that the classes below it are noted before it. -/
structure Sound (d : ClassDictionary) (x : Option String) (L : List Moment) (s : State) : Prop where
  returned : ∀ name, times (Event.isReturn name) L ≤ times (Event.isCall name) L
  finished : Smooth L → ∀ name ∈ s.started, d.Finished L name ∨ Pending L name
  closed : Smooth L → ∀ name ∈ s.started, ∀ above, d.Super name above → some above ≠ x → above ∈ s.started
  ordered : d.Ordered L

namespace Sound

theorem exempt (hL : Sound d none L s) : Sound d x L s :=
  ⟨hL.returned, hL.finished, fun hs name hname above ha _ => hL.closed hs name hname above ha nofun, hL.ordered⟩

theorem of_started (hL : Sound d x L s) (hst : t.started = s.started) : Sound d x L t := by
  obtain ⟨hreturned, hfinished, hclosed, hordered⟩ := hL
  rw [← hst] at hfinished hclosed
  exact ⟨hreturned, hfinished, hclosed, hordered⟩

/-- Events that have nothing to do with the set-up of classes make no difference. -/
theorem told {e : Event} (he : e.ofSetUp = false) (hL : Sound d x L s) : Sound d x (L ++ [⟨e, t⟩]) s where
  returned name := by
    simpa [Event.isCall_eq_false he, Event.isReturn_eq_false he] using hL.returned name
  finished hs name hname := (hL.finished hs.left name hname).imp .append fun hp => by
    simpa [Pending, Event.isCall_eq_false he, Event.isReturn_eq_false he] using hp
  closed hs := hL.closed hs.left
  ordered := hL.ordered.append fun name hname => by
    dsimp only at hname
    rw [hname] at he
    cases he

/-- The call for the set-up of a class, where the class is noted; its superclass is the next to be set up. -/
theorem noted {c : ClassFile} (hc : d.get? name = some c) (hL : Sound d (some name) L s) :
    Sound d c.superName (L ++ [⟨.asks name, s⟩]) { s with started := name :: s.started } where
  returned other := by
    have := hL.returned other
    simp [Event.isCall, Event.isReturn]
    omega
  finished hs other hother := by
    have hreturned := hL.returned other
    rcases List.mem_cons.1 hother with rfl | hother
    · right
      simp [Pending, Event.isCall, Event.isReturn]
      omega
    · refine (hL.finished hs.left other hother).imp .append fun hp => ?_
      simp only [Pending] at hp
      simp [Pending, Event.isCall, Event.isReturn]
      omega
  closed hs other hother above ha hx := by
    by_cases habove : above = name
    · exact List.mem_cons.2 (.inl habove)
    refine List.mem_cons_of_mem _ ?_
    rcases List.mem_cons.1 hother with rfl | hother
    · -- the class noted now has one superclass, which is exempt from here on
      obtain ⟨-, c', hc', hsuper⟩ := ha
      obtain rfl := Option.some.inj (hc.symm.trans hc')
      exact absurd hsuper.symm hx
    · exact hL.closed hs.left other hother above ha fun heq => habove (Option.some.inj heq)
  ordered := hL.ordered.append fun _ => nofun

/-- All classes above a noted one are noted, and finished or on the way. -/
theorem above (hL : Sound d none L s) (hs : Smooth L) (hname : name ∈ s.started) {above : String}
    (ha : TransGen d.Super name above) : above ∈ s.started ∧ (d.Finished L above ∨ Pending L above) := by
  have hmem : above ∈ s.started := by
    induction ha with
    | single hstep => exact hL.closed hs name hname _ hstep nofun
    | tail _ hstep ih => exact hL.closed hs _ ih _ hstep nofun
  exact ⟨hmem, hL.finished hs above hmem⟩

/-- The code of a noted class begins. -/
theorem starts (hL : Sound d none L s) (hname : name ∈ s.started) : Sound d none (L ++ [⟨.starts name, s⟩]) s where
  returned other := by simpa [Event.isCall, Event.isReturn] using hL.returned other
  finished hs other hother := (hL.finished hs.left other hother).imp .append fun hp => by
    simpa [Pending, Event.isCall, Event.isReturn] using hp
  closed hs := hL.closed hs.left
  ordered := hL.ordered.concat fun other hother hs _ ha => by
    cases hother
    exact hL.above hs hname ha

/-- The call for the set-up of a class returns; its code must have come to its end, unless there was an error. -/
theorem returns {r : Except Stop Unit} (hpending : Pending L name) (hfinished : r = .ok () → d.Finished L name)
    (hL : Sound d none L s) : Sound d none (L ++ [⟨.ofReturn name r, s⟩]) s where
  returned other := by
    have := hL.returned other
    simp only [Pending] at hpending
    by_cases hother : name = other
    · subst hother
      cases r <;> simp [Event.ofReturn, Event.isCall, Event.isReturn] <;> omega
    · cases r <;> simp [Event.ofReturn, Event.isCall, Event.isReturn, hother] <;> omega
  finished hs other hother := by
    cases r with
    | error => exact absurd hs not_smooth
    | ok =>
      by_cases hsame : name = other
      · subst hsame
        exact .inl (hfinished rfl).append
      · refine (hL.finished hs.left other hother).imp .append fun hp => ?_
        simpa [Pending, Event.ofReturn, Event.isCall, Event.isReturn, hsame] using hp
  closed hs := hL.closed hs.left
  ordered := hL.ordered.append fun other => by cases r <;> exact nofun

end Sound

/-- What a stretch `h` of the history does, between two states: no code begins of a class that had been noted,
and each begins once at most; all calls for the set-up of classes return; and what is sound stays so. -/
structure Course (d : ClassDictionary) (x : Option String) (L : List Moment) (s : State) (h : List Moment)
    (t : State) : Prop where
  marks : ∀ name, times (Event.isStart name) h + s.marked name ≤ t.marked name
  balanced : ∀ name, times (Event.isCall name) h = times (Event.isReturn name) h
  sound : Sound d x L s → Sound d none (L ++ h) t

namespace Course

theorem of_started (hst : t.started = s.started) : Course d none L s [] t := by
  refine ⟨fun name => ?_, fun _ => rfl, fun hL => ?_⟩
  · rw [State.marked, State.marked, hst, times_nil, Nat.zero_add]
  · rw [List.append_nil]
    exact hL.of_started hst

theorem weaken (hc : Course d x L s h t) : Course d none L s h t :=
  ⟨hc.marks, hc.balanced, fun hL => hc.sound hL.exempt⟩

theorem trans (hc : Course d x L s h t) (hc' : Course d none (L ++ h) t h' u) : Course d x L s (h ++ h') u where
  marks name := by
    have := hc.marks name
    have := hc'.marks name
    rw [times_append]
    omega
  balanced name := by rw [times_append, times_append, hc.balanced, hc'.balanced]
  sound hL := by
    rw [← List.append_assoc]
    exact hc'.sound (hc.sound hL)

theorem told {e : Event} (he : e.ofSetUp = false) : Course d none L s [⟨e, s⟩] s where
  marks name := by simp [Event.isStart_eq_false he]
  balanced name := by simp [Event.isCall_eq_false he, Event.isReturn_eq_false he]
  sound hL := hL.told he

/-- A class that has been noted stays so. -/
theorem kept (hc : Course d x L s h t) (hname : name ∈ s.started) : name ∈ t.started := by
  have := hc.marks name
  have := t.marked_le name
  have := State.marked_eq_one.2 hname
  exact State.marked_eq_one.1 (by omega)

/-- A call for the set-up of a class at which nothing happens; it returns if the class is none of the program or
has been noted. -/
theorem idle {r : Except Stop Unit} (hname : r = .ok () → d.contains name = true → name ∈ s.started) :
    Course d (some name) L s [⟨.asks name, s⟩, ⟨.ofReturn name r, s⟩] s where
  marks other := by cases r <;> simp [Event.ofReturn, Event.isStart]
  balanced other := by cases r <;> simp [Event.ofReturn, Event.isCall, Event.isReturn]
  sound hL := {
    returned := fun other => by
      have := hL.returned other
      cases r <;> simp [Event.ofReturn, Event.isCall, Event.isReturn] <;> omega
    finished := fun hs other hother => (hL.finished hs.left other hother).imp .append fun hp => by
      simp only [Pending] at hp
      cases r <;> simp [Pending, Event.ofReturn, Event.isCall, Event.isReturn] <;> omega
    closed := fun hs other hother above ha _ => by
      by_cases habove : above = name
      · subst habove
        cases r with
        | ok => exact hname rfl ha.1
        | error => exact absurd rfl (hs ⟨.fails above, s⟩ (by simp [Event.ofReturn]) above)
      · exact hL.closed hs.left other hother above ha fun heq => habove (Option.some.inj heq)
    ordered := by
      have hasks := hL.ordered.append (m := ⟨.asks name, s⟩) fun _ => nofun
      simpa using hasks.append (m := ⟨.ofReturn name r, s⟩) fun _ => by cases r <;> exact nofun }

/-- A call for the set-up of a class that is noted now; `h` is what happens up to the return. -/
theorem noted {c : ClassFile} {r : Except Stop Unit} (hc : d.get? name = some c)
    (hmarks : ∀ other, times (Event.isStart other) h + s.marked other ≤ t.marked other)
    (hbalanced : ∀ other, times (Event.isCall other) h = times (Event.isReturn other) h)
    (hsound : Sound d c.superName (L ++ [⟨.asks name, s⟩]) { s with started := name :: s.started } →
      Sound d none (L ++ [⟨.asks name, s⟩] ++ h) t)
    (hfinished : r = .ok () → d.Finished h name) :
    Course d (some name) L s (⟨.asks name, s⟩ :: h ++ [⟨.ofReturn name r, t⟩]) t where
  marks other := by
    have := hmarks other
    cases r <;> simp [Event.ofReturn, Event.isStart] <;> omega
  balanced other := by
    have := hbalanced other
    cases r <;> simp [Event.ofReturn, Event.isCall, Event.isReturn] <;> omega
  sound hL := by
    -- the calls in between have all returned, so this one is still going on
    have hpending : Pending (L ++ [⟨.asks name, s⟩] ++ h) name := by
      have := hL.returned name
      have := hbalanced name
      simp [Pending, Event.isCall, Event.isReturn]
      omega
    have hlast := (hsound (hL.noted hc)).returns (r := r) hpending fun hr c' hc' => (hfinished hr c' hc').imp_right
      fun ⟨m, hm, hcomplete⟩ => ⟨m, List.mem_append_right _ hm, hcomplete⟩
    simpa using hlast

/-- A class that is noted now and then set up by its own code, after the class above it: its code has not begun
before and does not begin again. -/
theorem set_up {c : ClassFile} {r : Except Stop Unit} (hc : d.get? name = some c) (hname : name ∉ s.started)
    (hB : Course d c.superName (L ++ [⟨.asks name, s⟩]) { s with started := name :: s.started } h t)
    (hE : Course d none (L ++ [⟨.asks name, s⟩] ++ h ++ [⟨.starts name, t⟩]) t h' u)
    (hfinished : r = .ok () → d.Finished h' name) :
    Course d (some name) L s (⟨.asks name, s⟩ :: (h ++ ⟨.starts name, t⟩ :: h') ++ [⟨.ofReturn name r, u⟩]) u := by
  have hnoted : State.marked { s with started := name :: s.started } name = 1 :=
    State.marked_eq_one.2 (List.mem_cons_self ..)
  have hstarted : t.marked name = 1 := State.marked_eq_one.2 (hB.kept (List.mem_cons_self ..))
  refine noted hc (fun other => ?_) (fun other => ?_) (fun hL => ?_) fun hr c' hc' => ?_
  · have hbefore := hB.marks other
    have hafter := hE.marks other
    rw [times_append, times_cons]
    by_cases hother : name = other
    · -- noted since the call and not before it, so its code can begin just once
      subst hother
      have hsame : s.marked name = 0 := if_neg hname
      have := u.marked_le name
      simp [Event.isStart]
      omega
    · have hkept : State.marked { s with started := name :: s.started } other = s.marked other := by
        simp [State.marked, Ne.symm hother]
      simp [Event.isStart, hother]
      omega
  · have := hB.balanced other
    have := hE.balanced other
    simp [Event.isCall, Event.isReturn]
    omega
  · have hlast := hE.sound ((hB.sound hL).starts (State.marked_eq_one.1 hstarted))
    simpa using hlast
  · exact (hfinished hr c' hc').imp_right fun ⟨m, hm, hcomplete⟩ =>
      ⟨m, List.mem_append_right _ (List.mem_cons_of_mem _ hm), hcomplete⟩

end Course

/-! ### The set-up of a class -/

section

variable (hsub : ∀ (task : Task) (L : List Moment) (s : State),
  Course w.program task.exempt L s (history chain w n task s) (task.after chain w n s))

include hsub

theorem course_above (c : ClassFile) (L : List Moment) (s : State) :
    Course w.program c.superName L s (aboveHistory (history chain w n) c s) ((initAbove chain n c).after w s) := by
  unfold initAbove aboveHistory
  cases c.superName with
  | some above => exact hsub (.initClass above) L s
  | none => exact .of_started rfl

theorem course_initClass (name : String) (L : List Moment) (s : State) :
    Course w.program (some name) L s (history chain w (n + 1) (.initClass name) s)
      ((chain.initClassWithin (n + 1) name).after w s) := by
  rw [history, enclose, parts, initHistory]
  have hx : chain.initClassWithin (n + 1) name w s = _ := initClassWithin_apply n name w s
  cases hc : w.program.get? name with
  | none =>
    rw [hc] at hx
    have hidle : w.program.contains name = true → name ∈ s.started := by simp [ClassDictionary.contains, hc]
    dsimp only
    rw [Exec.after_of_ok hx]
    exact .idle fun _ => hidle
  | some c =>
    rw [hc] at hx
    dsimp only at hx ⊢
    by_cases hname : name ∈ s.started
    · rw [if_pos hname] at hx ⊢
      rw [Exec.after_of_ok hx]
      exact .idle fun _ _ => hname
    rw [if_neg hname] at hx ⊢
    rw [Exec.bind_apply] at hx
    have hB := course_above hsub c (L ++ [⟨.asks name, s⟩]) { s with started := name :: s.started }
    generalize aboveHistory (history chain w n) c { s with started := name :: s.started } = h at hB ⊢
    have hmarks : ∀ other, s.marked other ≤ State.marked { s with started := name :: s.started } other :=
      s.marked_le_cons name
    cases ha : initAbove chain n c w { s with started := name :: s.started } with
    | error e t =>
      simp only [ha] at hx ⊢
      rw [Exec.after_of_error ha] at hB
      rw [Exec.after_of_error hx, Exec.outcome_of_error hx, List.append_nil]
      exact .noted hc (fun other => Nat.le_trans (Nat.add_le_add_left (hmarks other) _) (hB.marks other)) hB.balanced
        hB.sound fun h => by cases h
    | ok _ t =>
      simp only [ha, initSelf, selfHistory] at hx ⊢
      rw [Exec.after_of_ok ha] at hB
      cases hsetup : c.setup? with
      | none =>
        simp only [hsetup] at hx ⊢
        rw [Exec.after_of_ok hx, Exec.outcome_of_ok hx, List.append_nil]
        refine .noted hc (fun other => Nat.le_trans (Nat.add_le_add_left (hmarks other) _) (hB.marks other)) hB.balanced
          hB.sound fun _ c' hc' => ?_
        obtain rfl := Option.some.inj (hc.symm.trans hc')
        exact .inl hsetup
      | some m =>
        have hE := hsub (.execute c m [] none) (L ++ [⟨.asks name, s⟩] ++ h ++ [⟨.starts name, t⟩]) t
        rw [Task.after] at hE
        simp only [hsetup] at hx ⊢
        rw [Exec.bind_apply] at hx
        cases he : chain.executeWithin n c m [] none w t with
        | error e u =>
          simp only [he] at hx ⊢
          rw [Exec.after_of_error he] at hE
          rw [Exec.after_of_error hx, Exec.outcome_of_error hx, List.append_nil]
          exact .set_up hc hname hB hE fun h => by cases h
        | ok v u =>
          simp only [he] at hx ⊢
          rw [Exec.after_of_ok he] at hE
          rw [Exec.after_of_ok hx, Exec.outcome_of_ok hx]
          refine .set_up hc hname hB (hE.trans (.told (e := .completes name) rfl)) fun _ c' _ => .inr ?_
          exact ⟨⟨.completes name, u⟩, List.mem_append_right _ (List.mem_singleton_self _), rfl⟩

end

/-- What has happened since a moment is a course. -/
theorem endures_course (L₀ : List Moment) (s₀ : State) :
    Endures chain w fun L s => ∃ h, L = L₀ ++ h ∧ Course w.program none L₀ s₀ h s where
  changed := by
    rintro _ s t ⟨h, rfl, hc⟩ hst
    have hcourse := hc.trans (.of_started hst.started)
    exact ⟨h, rfl, by rwa [List.append_nil] at hcourse⟩
  begins := by
    rintro _ s i a ⟨h, rfl, hc⟩
    exact ⟨_, List.append_assoc .., hc.trans (.told rfl)⟩
  uses := by
    rintro _ s s₁ n name - ⟨h, rfl, hc⟩
    exact ⟨_, List.append_assoc .., hc.trans (.told rfl)⟩
  executed := by
    rintro _ s t i a r hx ⟨h, rfl, hc⟩
    have hcourse := hc.trans (.of_started (hx.changes fun _ => trivial).started)
    rw [List.append_nil] at hcourse
    exact ⟨_, List.append_assoc .., hcourse.trans (.told rfl)⟩

/-- What is no call for the set-up of a class is a course if what it consists of is. -/
theorem course_other (hchain : chain.Ordinary) (hsub : ∀ m, n = m + 1 → ∀ (task : Task) (L : List Moment) (s : State),
      Course w.program task.exempt L s (history chain w m task s) (task.after chain w m s))
    {task : Task} (ht : ∀ name, task ≠ .initClass name) :
    Course w.program none L s (history chain w n task s) (task.after chain w n s) := by
  have hbelow : KeepsBelow chain w n fun M t => ∃ h, M = L ++ h ∧ Course w.program none L s h t := by
    rintro m hm _ other t ⟨h, rfl, hc⟩
    exact ⟨_, List.append_assoc .., hc.trans (hsub m hm other _ t).weaken⟩
  obtain ⟨h, hh, hc⟩ := (endures_course L s).keep hchain hbelow ht ⟨[], (List.append_nil L).symm, .of_started rfl⟩
  obtain rfl := List.append_cancel_left hh
  exact hc

theorem course (hchain : chain.Ordinary) (n : Nat) (task : Task) (L : List Moment) (s : State) :
    Course w.program task.exempt L s (history chain w n task s) (task.after chain w n s) := by
  -- on the fuel; only the set-up of a class has an exempt name, and what it consists of has the next one
  induction n generalizing task L s with
  | zero =>
    cases task with
    | initClass name => exact .idle (r := .error .outOfFuel) nofun
    | _ => exact course_other hchain (fun m hm => by cases hm) fun _ ht => by cases ht
  | succ n ih =>
    cases task with
    | initClass name => exact course_initClass ih name L s
    | _ => exact course_other hchain (fun m hm => by cases hm; exact ih) fun _ ht => by cases ht

theorem course_session (hchain : chain.Ordinary) (tasks : List (Nat × Task)) (L : List Moment) (s : State) :
    ∃ t, Course w.program none L s (session chain w tasks s) t := by
  induction tasks generalizing L s with
  | nil => exact ⟨s, .of_started rfl⟩
  | cons task rest ih =>
    obtain ⟨n, task⟩ := task
    have hopens : Course w.program none L s [⟨.opens, s⟩] s := .told rfl
    have hdone := (hopens.trans (course hchain n task _ s).weaken).trans (.told (e := .closes) rfl)
    obtain ⟨t, ht⟩ := ih _ (task.after chain w n s)
    refine ⟨t, ?_⟩
    rw [session]
    simpa using hdone.trans ht

/-- When the call for the set-up of a class of the program returns without an error, the class is noted. -/
theorem started_of_initClass (hchain : chain.Ordinary) (hx : chain.initClassWithin n name w s = .ok () t)
    (hname : w.program.contains name = true) : name ∈ t.started := by
  cases n with
  | zero => cases hx
  | succ n =>
    obtain ⟨c, hc⟩ := Option.isSome_iff_exists.1 hname
    rw [initClassWithin_apply, hc] at hx
    dsimp only at hx
    by_cases hstarted : name ∈ s.started
    · rw [if_pos hstarted] at hx
      cases hx
      exact hstarted
    rw [if_neg hstarted, Exec.bind_apply] at hx
    have hB := course_above (w := w) (course hchain n) c [] { s with started := name :: s.started }
    cases ha : initAbove chain n c w { s with started := name :: s.started } with
    | error => rw [ha] at hx; cases hx
    | ok _ u =>
      rw [Exec.after_of_ok ha] at hB
      have hu := hB.kept (List.mem_cons_self (a := name))
      simp only [ha, initSelf] at hx
      cases hsetup : c.setup? with
      | none =>
        simp only [hsetup] at hx
        cases hx
        exact hu
      | some m =>
        simp only [hsetup] at hx
        rw [Exec.bind_apply] at hx
        have hE := course (w := w) hchain n (.execute c m [] none) [] u
        rw [Task.after] at hE
        cases he : chain.executeWithin n c m [] none w u with
        | error => rw [he] at hx; cases hx
        | ok v u' =>
          rw [he] at hx
          cases hx
          rw [Exec.after_of_ok he] at hE
          exact hE.kept hu

end Chain

end Jvm
