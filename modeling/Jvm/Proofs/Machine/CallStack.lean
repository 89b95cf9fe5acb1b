import Jvm.Proofs.Machine.Agreement
import Jvm.Proofs.Machine.Budget
import Jvm.Proofs.Machine.Secure

/-!
# The call stack

The methods that run after a method was executed are those that ran before, however the execution ended
(`frames_execute`): with a value, with a fault of some instruction or of a method that it called, by a limit, or
cut off. And while its instructions are executed, its own frame is the newest (`frames_visits`): an instruction
may call methods and set up classes, but all these are executed, too, and leave the frames as they were.

Nothing is assumed of the objects, the arguments or the program, so the first statement is not one about good
runs: references may lead nowhere, and the arguments need not fit the descriptor.
-/

namespace Jvm

/-- A secure action leaves the methods that run as they were. -/
theorem Exec.Secure.frames {α : Type} {P : Nat → α → Prop} {x : Exec α} (h : Exec.Secure .free 0 P x) (w : World)
    (s : State) : (x.final w s).frames = s.frames := by
  have hx := h w s (Demands.knows_free w) (Demands.meets_free s) (Nat.zero_le _)
  unfold Exec.final
  cases hres : x w s with
  | ok a s' =>
    rw [hres] at hx
    exact hx.2.frames
  | error e s' =>
    rw [hres] at hx
    exact hx.2.frames

namespace Chain

variable {w : World} {s : State} {owner : ClassFile} {m : Method} {b : MethodBody} {arguments : List Value}
  {receiver : Option Value} {fuel : Nat} {q r : Point}

theorem frames_execute : ((standard.executeWithin fuel owner m arguments receiver).final w s).frames = s.frames :=
  ((Demands.secured_all .free fuel).execute 0 owner m arguments receiver (Demands.entered_free _ _ _)).frames w s

/-- Whatever an instruction calls and sets up, the frames are the same afterwards, also if it fails. -/
theorem frames_perform (i : Instruction) (a : Activation) :
    ((standard.perform (standard.hooks fuel) i a).final w s).frames = s.frames :=
  ((Demands.secured_all .free fuel).secure_perform (n := 0) i a False.elim).frames w s

theorem frames_moves {code : Array Instruction} (h : standard.Moves w code q r) : r.state.frames = q.state.frames := by
  have hperform : ∀ {fuel i a next a'} {s s' : State},
      standard.perform (standard.hooks fuel) i a w s = .ok (next, a') s' → s'.frames = s.frames := by
    intro fuel i a next a' s s' hx
    have hfinal : ((standard.perform (standard.hooks fuel) i a).final w s).frames = s.frames := frames_perform i a
    rwa [Exec.final, hx] at hfinal
  cases h with
  | advance _ hx => exact hperform hx
  | jump _ hx _ => exact hperform hx

/-- At every place that a method comes to, its own frame is above those that were there before. -/
theorem frames_visits (h : Visits standard w owner m b arguments receiver fuel s q) :
    q.state.frames = CallFrame.ofMethod owner.name m.name (Int32.ofNat owner.poolSize.toNat) :: s.frames := by
  induction h with
  | enter _ _ hpush _ =>
    rw [Exec.pushFrame_apply] at hpush
    split at hpush <;> cases hpush
    rfl
  | move _ hmove ih => rw [frames_moves hmove, ih]

/-- However the execution of a method ends, the frames are those from before; and every instruction of the method
is executed with the frame of the method on top of them. The methods that it calls are executed, too, from
where they are called, so this holds of them as well. -/
theorem execute_keeps_frames (w : World) (s : State) (owner : ClassFile) (m : Method) (b : MethodBody)
    (arguments : List Value) (receiver : Option Value) :
    (∀ fuel, ((standard.executeWithin fuel owner m arguments receiver).final w s).frames = s.frames) ∧
    ∀ fuel q, Visits standard w owner m b arguments receiver fuel s q →
      q.state.frames = CallFrame.ofMethod owner.name m.name (Int32.ofNat owner.poolSize.toNat) :: s.frames :=
  ⟨fun _ => frames_execute, fun _ _ => frames_visits⟩

theorem execute_keeps_frames_copied :
    ((standard.executeWithin 9 copiedClass copiedMain [] none).final copiedWorld (.start .standard)).frames = [] ∧
    ∃ q, Visits standard copiedWorld copiedClass copiedMain copied [] none 9 (.start .standard) q ∧ q.pc = 1 ∧
      q.state.frames = [⟨"Copied", "main", 0⟩] := by
  obtain ⟨hfinal, hvisits⟩ :=
    execute_keeps_frames copiedWorld (.start .standard) copiedClass copiedMain copied [] none
  obtain ⟨a, t, hmove⟩ : ∃ a t, Visits standard copiedWorld copiedClass copiedMain copied [] none 9
      (.start .standard) ⟨7, 1, a, t⟩ :=
    ⟨_, _, .move (.enter (d := ⟨[], .object "java/lang/String"⟩) rfl rfl rfl rfl) (.advance rfl rfl)⟩
  exact ⟨hfinal 9, _, hmove, rfl, hvisits 9 _ hmove⟩

end Chain

end Jvm
