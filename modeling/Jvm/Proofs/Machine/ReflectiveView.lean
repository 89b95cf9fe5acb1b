import Jvm.Proofs.Machine.ClassObjects

/-!
# What class objects tell of the program

A class object of a class of the program is asked for what the class declares: its interfaces, its fields and its
methods. The answers are new arrays of new objects, one for each entry in the order of the declarations
(`Exec.ListsAnew`), and all that is there stays as it is.

The superclass is another matter, since it is not looked up for a name without a package; such a name is taken for that
of a primitive type. `declarations_told` says when the answer is right all the same.
-/

namespace Jvm

namespace Exec

/-- The action makes an array of objects of these contents and leaves all that there is as it is. -/
def ListsAnew (x : Exec Value) (w : World) (s : State) (descriptor : String) (ps : List Payload) : Prop :=
  ∃ v t, x w s = .ok v t ∧ s.Spares t ∧ t.heap.Lists v descriptor ps

/-- The action makes a class object of the name, or returns `null` if there is none, and leaves all that there is as it
is. -/
def TellsClass (x : Exec Value) (w : World) (s : State) : Option String → Prop
  | some name => ∃ v t, x w s = .ok v t ∧ s.Spares t ∧ t.heap.payload v = .ok (.classObject name)
  | none => x w s = .ok .null s

variable {α : Type} {w : World} {s : State}

theorem listsAnew (f : α → Payload) (xs : List α) (component : String) (hcomponent : component.toList.head? ≠ some '[')
    (hroom : s.heap.HasRoom (xs.length + 1)) (w : World) :
    (xs.mapM (fun x => allocate (f x)) >>= newReferences component).ListsAnew w s ("L" ++ component ++ ";")
      (xs.map f) := by
  obtain ⟨v, os, hrun, -, hlists⟩ := listing_apply f xs component hcomponent hroom w
  exact ⟨v, _, hrun, State.spares_append s os, hlists⟩

/-- What is told stays the same if the action is preceded by one that only looks something up. -/
theorem ListsAnew.bind {x : Exec α} {f : α → Exec Value} {a : α} {descriptor : String} {ps : List Payload}
    (hx : x w s = .ok a s) (hf : (f a).ListsAnew w s descriptor ps) : (x >>= f).ListsAnew w s descriptor ps := by
  obtain ⟨v, t, hrun, h⟩ := hf
  exact ⟨v, t, (bind_of_ok hx).trans hrun, h⟩

theorem tellsClass_newClass (hroom : s.heap.HasRoom 1) (name : String) (w : World) :
    (newClass name).TellsClass w s (some name) :=
  ⟨_, _, allocate_apply hroom _ w, State.spares_append .., Heap.payload_eq_ok.2 ⟨_, rfl, Heap.contents?_append_size ..⟩⟩

theorem TellsClass.eq_none {x : Exec Value} {name? : Option String} (hx : x w s = .ok .null s)
    (h : x.TellsClass w s name?) : name? = none := by
  cases name? with
  | none => rfl
  | some name =>
    obtain ⟨v, t, hv, -, hname⟩ := h
    cases hx.symm.trans hv
    cases hname

end Exec

namespace Library

open Exec

/-- A name with a package, and not that of the class at the top. -/
def IsLookedUp (name : String) : Prop := name ≠ "java/lang/Object" ∧ '/' ∈ name.toList

instance (name : String) : Decidable (IsLookedUp name) := inferInstanceAs (Decidable (_ ∧ _))

variable {w : World} {s : State} {c : Call} {id : Nat} {name : String} {file : ClassFile}

section

variable (hthis : c.receiver = some (.ref id)) (hid : s.heap.contents? id = some (.classObject name))
  (hfile : w.program.get? name = some file)

include hthis hid hfile

/-- The superclass of the class is told if the name is looked up, and otherwise none. -/
theorem getSuperclass_tells (hroom : s.heap.HasRoom 1) :
    (getSuperclass c).TellsClass w s (if IsLookedUp name then file.superName else none) := by
  have hguard : (name = "java/lang/Object" ∨ ¬ name.toList.contains '/') ↔ ¬ IsLookedUp name := by
    rw [IsLookedUp, List.contains_iff_mem, not_and_or, ne_eq, not_not]
  by_cases hname : IsLookedUp name
  · have hrun : getSuperclass c w s =
        (match file.superName with
          | some above => newClass above
          | none => return .null : Exec Value) w s := by
      rw [getSuperclass, bind_of_ok (thisClass_apply hthis hid w), if_neg (hguard.not.2 (not_not.2 hname))]
      refine (bind_of_ok (programClass_apply hfile s)).trans ?_
      cases file.superName <;> rfl
    rw [if_pos hname]
    cases hsuper : file.superName with
    | none => rwa [hsuper] at hrun
    | some above =>
      rw [hsuper] at hrun
      obtain ⟨v, t, hv, htold⟩ := tellsClass_newClass hroom above w
      exact ⟨v, t, hrun.trans hv, htold⟩
  · rw [if_neg hname]
    change getSuperclass c w s = _
    rw [getSuperclass, bind_of_ok (thisClass_apply hthis hid w), if_pos (hguard.2 hname), pure_apply]

theorem getInterfaces_lists (hroom : s.heap.HasRoom (file.interfaces.length + 1)) :
    (getInterfaces c).ListsAnew w s "Ljava/lang/Class;" (file.interfaces.map .classObject) :=
  .bind (thisClass_apply hthis hid w) <| .bind (programClass_apply hfile s) <|
    listsAnew Payload.classObject file.interfaces "java/lang/Class" (by decide) hroom w

theorem getDeclaredFields_lists (hroom : s.heap.HasRoom (file.fields.length + 1)) :
    (getDeclaredFields c).ListsAnew w s "Ljava/lang/reflect/Field;"
      (file.fields.map fun f => .field ⟨name, f.name, f.descriptor⟩) :=
  .bind (thisClass_apply hthis hid w) <| .bind (programClass_apply hfile s) <|
    listsAnew (fun f => .field ⟨name, f.name, f.descriptor⟩) file.fields "java/lang/reflect/Field" (by decide) hroom w

theorem getDeclaredMethods_lists (hroom : s.heap.HasRoom ((file.methods.filter (!·.isInitializer)).length + 1)) :
    (getDeclaredMethods c).ListsAnew w s "Ljava/lang/reflect/Method;"
      ((file.methods.filter (!·.isInitializer)).map fun m => .method ⟨⟨name, m.name, m.descriptor⟩, false⟩) :=
  .bind (thisClass_apply hthis hid w) <| .bind (programClass_apply hfile s) <|
    listsAnew (fun m => .method ⟨⟨name, m.name, m.descriptor⟩, false⟩) (file.methods.filter (!·.isInitializer))
      "java/lang/reflect/Method" (by decide) hroom w

/-- The right superclass is told exactly if the name is looked up or there is no superclass. -/
theorem getSuperclass_right_iff (hroom : s.heap.HasRoom 1) :
    (getSuperclass c).TellsClass w s file.superName ↔ IsLookedUp name ∨ file.superName = none := by
  have htells := getSuperclass_tells hthis hid hfile hroom
  by_cases hname : IsLookedUp name
  · rw [if_pos hname] at htells
    exact iff_of_true htells (.inl hname)
  · rw [if_neg hname] at htells
    rw [or_iff_right hname]
    exact ⟨fun h => h.eq_none htells, fun h => by rwa [h]⟩

end

/-- A class object of a class of the program tells its interfaces, its fields, and its methods other than initializers,
each by new objects in the order of the declarations. It tells the superclass if its name has a package and is not that
of the class at the top, and otherwise none; this is right exactly if the class has none. What there was stays. -/
theorem declarations_told (w : World) (s : State) (c : Call) (id : Nat) (name : String) (file : ClassFile)
    (hthis : c.receiver = some (.ref id)) (hid : s.heap.contents? id = some (.classObject name))
    (hfile : w.program.get? name = some file) :
    (s.heap.HasRoom 1 → (getSuperclass c).TellsClass w s (if IsLookedUp name then file.superName else none) ∧
      ((getSuperclass c).TellsClass w s file.superName ↔ IsLookedUp name ∨ file.superName = none)) ∧
    (s.heap.HasRoom (file.interfaces.length + 1) →
      (getInterfaces c).ListsAnew w s "Ljava/lang/Class;" (file.interfaces.map .classObject)) ∧
    (s.heap.HasRoom (file.fields.length + 1) → (getDeclaredFields c).ListsAnew w s "Ljava/lang/reflect/Field;"
      (file.fields.map fun f => .field ⟨name, f.name, f.descriptor⟩)) ∧
    (s.heap.HasRoom ((file.methods.filter (!·.isInitializer)).length + 1) →
      (getDeclaredMethods c).ListsAnew w s "Ljava/lang/reflect/Method;"
        ((file.methods.filter (!·.isInitializer)).map fun m => .method ⟨⟨name, m.name, m.descriptor⟩, false⟩)) :=
  ⟨fun hroom => ⟨getSuperclass_tells hthis hid hfile hroom, getSuperclass_right_iff hthis hid hfile hroom⟩,
    getInterfaces_lists hthis hid hfile, getDeclaredFields_lists hthis hid hfile,
    getDeclaredMethods_lists hthis hid hfile⟩

/-- A class of any name, with a superclass, an interface, a field, a constructor and another method. -/
def declaring (name : String) : ClassFile where
  name := name
  superName := some "java/lang/Object"
  interfaces := ["java/lang/Runnable"]
  access := 0
  poolSize := 0
  fields := [⟨"count", "I", 0, none⟩]
  methods := [⟨"<init>", "()V", 0, none⟩, ⟨"run", "()V", 0, none⟩]

/-- A call of a method of the class object with the number 0. -/
def onClassObject (method descriptor : String) : Call :=
  .onObject .virtual ⟨"java/lang/Class", method, descriptor⟩ (.ref 0) []

theorem declarations_told_package :
    let w : World := ⟨⟨[declaring "a/Task"]⟩, .standard, none, [], .still 0⟩
    let s := State.ofPayloads [.classObject "a/Task"]
    (getSuperclass (onClassObject "getSuperclass" "()Ljava/lang/Class;")).TellsClass w s (some "java/lang/Object") ∧
    (getDeclaredMethods (onClassObject "getDeclaredMethods" "()[Ljava/lang/reflect/Method;")).ListsAnew w s
      "Ljava/lang/reflect/Method;" [.method ⟨⟨"a/Task", "run", "()V"⟩, false⟩] := by
  intro w s
  have htold (c : Call) (hc : c.receiver = some (.ref 0)) :=
    declarations_told w s c 0 "a/Task" (declaring "a/Task") hc rfl rfl
  obtain ⟨hsuper, -⟩ := htold (onClassObject "getSuperclass" "()Ljava/lang/Class;") rfl
  obtain ⟨-, -, -, hmethods⟩ := htold (onClassObject "getDeclaredMethods" "()[Ljava/lang/reflect/Method;") rfl
  have hname : IsLookedUp "a/Task" := by decide
  exact ⟨(hsuper (by decide)).2.2 (.inl hname), hmethods (by decide)⟩

/-- The superclass of a class without a package is not told. -/
theorem superclass_not_told :
    (⟨[declaring "Task"]⟩ : ClassDictionary).get? "Task" = some (declaring "Task") ∧
    (declaring "Task").superName = some "java/lang/Object" ∧
    (State.ofPayloads [.classObject "Task"]).heap.contents? 0 = some (.classObject "Task") ∧
    (State.ofPayloads [.classObject "Task"]).heap.HasRoom 1 ∧
    getSuperclass (onClassObject "getSuperclass" "()Ljava/lang/Class;")
      ⟨⟨[declaring "Task"]⟩, .standard, none, [], .still 0⟩
      (.ofPayloads [.classObject "Task"]) = .ok .null (.ofPayloads [.classObject "Task"]) :=
  ⟨rfl, rfl, rfl, by decide, rfl⟩

end Library

end Jvm
