import Jvm.Library.Reflection
import Jvm.Proofs.Descriptor
import Jvm.Proofs.Machine.ArrayCopy
import Jvm.Proofs.Machine.NewObjects
import Jvm.Proofs.Text.Utf16
import Mathlib.Logic.Basic

/-!
# Class objects and the types that they stand for

A class object has only a name: the keyword of a primitive type, the descriptor of an array type or the name of a class.
Which of the three it is has to be told by its look, and so a class with the name of a primitive type or with a bracket
in front is taken for another type (`classDescriptor_internalName`).

`declares_again`: a method is found again by its name and the class objects of its parameter types exactly if none of
these is such a class and no method with an odd descriptor stands in front of it.
-/

namespace Jvm

namespace FieldType

/-- What the class objects of primitive types and of `void` are called. -/
def keywords : List String := ["byte", "char", "double", "float", "int", "long", "short", "boolean", "void"]

/-- No class whose name looks like that of another type. -/
def IsPlain : FieldType → Prop
  | object name => name ∉ keywords ∧ name.toList.head? ≠ some '['
  | _ => True

theorem exists_of_not_isPlain {t : FieldType} (h : ¬ t.IsPlain) :
    ∃ name, t = object name ∧ (name ∈ keywords ∨ name.toList.head? = some '[') := by
  cases t with
  | object name =>
    refine ⟨name, rfl, ?_⟩
    rwa [IsPlain, not_and_or, not_not, ne_eq, not_not] at h
  | _ => exact absurd trivial h

end FieldType

namespace Library

open FieldType

variable {name : String} {t : FieldType} {ts : List FieldType} {rest : List Char}

theorem classDescriptor_of_mem_keywords (h : name ∈ keywords) :
    ∃ c, (classDescriptor name).toList = [c] ∧ c ≠ 'L' := by
  have hall : ∀ name ∈ keywords, (classDescriptor name).toList.length = 1 ∧ 'L' ∉ (classDescriptor name).toList := by
    decide
  obtain ⟨hlength, hclass⟩ := hall name h
  obtain ⟨c, hc⟩ := List.length_eq_one_iff.1 hlength
  refine ⟨c, hc, ?_⟩
  rintro rfl
  exact hclass (by simp [hc])

theorem classDescriptor_of_not_mem_keywords (h : name ∉ keywords) :
    classDescriptor name = if name.toList.head? = some '[' then name else "L" ++ name ++ ";" := by
  unfold classDescriptor
  split
  case h_10 => rfl
  all_goals exact absurd (by decide) h

theorem not_mem_keywords_of_bracket (h : name.toList.head? = some '[') : name ∉ keywords := by
  have hall : ∀ name ∈ keywords, name.toList.head? ≠ some '[' := by decide
  exact fun hname => hall name hname h

theorem classDescriptor_of_isPlain (h : t.IsPlain) : classDescriptor t.internalName = t.descriptor := by
  cases t with
  | object name =>
    rw [FieldType.internalName, classDescriptor_of_not_mem_keywords h.1, if_neg h.2, ← String.toList_inj]
    simp [descriptor, descriptorChars]
  | array component =>
    have hbracket : (array component).internalName.toList.head? = some '[' := by
      rw [FieldType.internalName, descriptor, String.toList_ofList]
      rfl
    rw [classDescriptor_of_not_mem_keywords (not_mem_keywords_of_bracket hbracket), if_pos hbracket]
    rfl
  | _ => rfl

/-- A class that looks like another type is taken for one that is no class. -/
theorem classDescriptor_of_not_isPlain (h : ¬ t.IsPlain) :
    ∃ c cs, (classDescriptor t.internalName).toList = c :: cs ∧ c ≠ 'L' := by
  obtain ⟨name, rfl, hkeyword | hbracket⟩ := exists_of_not_isPlain h
  · obtain ⟨c, hc, hne⟩ := classDescriptor_of_mem_keywords hkeyword
    exact ⟨c, [], hc, hne⟩
  · obtain ⟨cs, hcs⟩ := List.head?_eq_some_iff.1 hbracket
    have hname := classDescriptor_of_not_mem_keywords (not_mem_keywords_of_bracket hbracket)
    rw [FieldType.internalName, hname, if_pos hbracket]
    exact ⟨'[', cs, hcs, by decide⟩

theorem classDescriptor_internalName : classDescriptor t.internalName = t.descriptor ↔ t.IsPlain := by
  refine ⟨fun h => Classical.not_not.1 fun hplain => ?_, classDescriptor_of_isPlain⟩
  obtain ⟨c, cs, hchars, hne⟩ := classDescriptor_of_not_isPlain hplain
  obtain ⟨name, rfl, -⟩ := exists_of_not_isPlain hplain
  rw [h, descriptor, String.toList_ofList, descriptorChars] at hchars
  exact hne (List.cons.inj hchars).1.symm

/-- What is asked for by the class objects of these types. -/
def askedChars (ts : List FieldType) : List Char := ts.flatMap fun t => (classDescriptor t.internalName).toList

theorem askedChars_of_isPlain (h : ∀ t ∈ ts, t.IsPlain) : askedChars ts = ts.flatMap descriptorChars := by
  have hsame : ∀ t ∈ ts, (classDescriptor t.internalName).toList = t.descriptorChars := by
    intro t ht
    rw [classDescriptor_of_isPlain (h t ht), descriptor, String.toList_ofList]
  rw [askedChars, List.flatMap_def, List.flatMap_def, List.map_congr_left hsame]

/-- The first class among them that is taken for another type makes a difference. -/
theorem isPlain_of_askedChars (h : askedChars ts <+: ts.flatMap descriptorChars ++ rest) : ∀ t ∈ ts, t.IsPlain := by
  induction ts with
  | nil => nofun
  | cons t ts ih =>
    rw [askedChars, List.flatMap_cons, ← askedChars, List.flatMap_cons, List.append_assoc] at h
    -- the written form of a class begins with `L`, and that of what it is taken for does not
    have ht : t.IsPlain := by
      refine Classical.not_not.1 fun hplain => ?_
      obtain ⟨c, cs, hchars, hne⟩ := classDescriptor_of_not_isPlain hplain
      obtain ⟨name, rfl, -⟩ := exists_of_not_isPlain hplain
      rw [hchars, descriptorChars] at h
      exact hne (List.cons_prefix_cons.1 h).1
    rw [classDescriptor_of_isPlain ht, descriptor, String.toList_ofList, List.prefix_append_right_inj] at h
    exact List.forall_mem_cons.2 ⟨ht, ih h⟩

end Library

/-! ### Methods by their parameters -/

namespace Method

open FieldType

variable {m : Method} {d : MethodDescriptor} {ts : List FieldType}

/-- The types of the parameters, if the descriptor can be read. -/
def parameters? (m : Method) : Option (List FieldType) :=
  (MethodDescriptor.parse m.descriptor).toOption.map (·.parameters)

/-- The descriptor begins with these parameters. -/
def takes (m : Method) (ts : List FieldType) : Bool :=
  ('(' :: ts.flatMap descriptorChars ++ [')']).isPrefixOf m.descriptor.toList

theorem parameters?_eq_some :
    m.parameters? = some ts ↔ ∃ d, MethodDescriptor.parse m.descriptor = .ok d ∧ d.parameters = ts := by
  rw [parameters?]
  cases MethodDescriptor.parse m.descriptor <;> simp [Except.toOption]

theorem takes_iff : m.takes ts ↔ ∃ rest, m.descriptor.toList = '(' :: (ts.flatMap descriptorChars ++ ')' :: rest) := by
  rw [takes, List.isPrefixOf_iff_prefix]
  constructor
  · rintro ⟨rest, hrest⟩
    exact ⟨rest, by simpa using hrest.symm⟩
  · rintro ⟨rest, hrest⟩
    exact ⟨rest, by simp [hrest]⟩

theorem toList_descriptor (hd : MethodDescriptor.parse m.descriptor = .ok d) :
    m.descriptor.toList = '(' :: (d.parameters.flatMap descriptorChars ++ ')' :: d.returns.descriptorChars) := by
  obtain ⟨-, hdescriptor⟩ := MethodDescriptor.parse_eq_ok.1 hd
  rw [hdescriptor, MethodDescriptor.descriptor, String.toList_ofList]
  rfl

/-- Where the descriptor can be read, it begins with its own parameters only. -/
theorem takes_iff_parameters (hd : MethodDescriptor.parse m.descriptor = .ok d) (hts : ∀ t ∈ ts, t.IsValue) :
    m.takes ts ↔ d.parameters = ts := by
  rw [takes_iff, toList_descriptor hd]
  constructor
  · rintro ⟨rest, hrest⟩
    have hparameters := (MethodDescriptor.parse_eq_ok.1 hd).1.parameters
    have hsame := (List.cons.inj hrest).2
    let fuel := (d.parameters.flatMap descriptorChars).length + (ts.flatMap descriptorChars).length
    have hread : MethodDescriptor.readParameters "" fuel
        (d.parameters.flatMap descriptorChars ++ ')' :: d.returns.descriptorChars) = .ok (d.parameters, _) :=
      MethodDescriptor.readParameters_flatMap hparameters (Nat.le_add_right ..)
    -- both lists are read from the same text, which can be done in one way only
    rw [hsame, MethodDescriptor.readParameters_flatMap hts (Nat.le_add_left ..)] at hread
    cases hread
    rfl
  · rintro rfl
    exact ⟨_, rfl⟩

end Method

/-! ### Asking for a method again -/

namespace Library

open FieldType

/-- Asks a class object for the method of a name with the parameter types that the object for a method tells. -/
def getDeclaredAgain (cls method name : Value) : Exec Value := do
  let types ← getParameterTypes <|
    .onObject .virtual ⟨"java/lang/reflect/Method", "getParameterTypes", "()[Ljava/lang/Class;"⟩ method []
  getDeclaredMethod <| .onObject .virtual ⟨"java/lang/Class", "getDeclaredMethod",
    "(Ljava/lang/String;[Ljava/lang/Class;)Ljava/lang/reflect/Method;"⟩ cls [name, types]

variable {w : World} {s : State} {c : Call} {id : Nat} {member : MemberRef} {accessible : Bool} {d : MethodDescriptor}

theorem thisClass_apply {name : String} (hthis : c.receiver = some (.ref id))
    (hid : s.heap.contents? id = some (.classObject name)) (w : World) : thisClass c w s = .ok name s :=
  Call.narrowThis_apply hthis (Heap.narrow_eq_ok.2 ⟨id, _, rfl, hid, rfl⟩) w

theorem programClass_apply {name : String} {file : ClassFile} (hfile : w.program.get? name = some file) (s : State) :
    programClass name w s = .ok file s := by
  rw [programClass, Exec.bind_of_ok (Exec.read_apply w s), hfile]
  rfl

/-- The class objects of the parameter types, in a new array. -/
theorem getParameterTypes_apply (hthis : c.receiver = some (.ref id))
    (hmethod : s.heap.contents? id = some (.method ⟨member, accessible⟩))
    (hd : MethodDescriptor.parse member.descriptor = .ok d) (hroom : s.heap.HasRoom (d.parameters.length + 1))
    (w : World) : ∃ v os, getParameterTypes c w s = .ok v (s.append os) ∧ os.length = d.parameters.length + 1 ∧
      (s.append os).heap.Lists v "Ljava/lang/Class;" (d.parameters.map fun t => .classObject t.internalName) := by
  have hlisting := Exec.listing_apply (fun t : FieldType => .classObject t.internalName) d.parameters "java/lang/Class"
    (by decide) hroom w
  have hnarrow : s.heap.narrow View.method (.ref id) = .ok ⟨member, accessible⟩ :=
    Heap.narrow_eq_ok.2 ⟨id, _, rfl, hmethod, rfl⟩
  rw [getParameterTypes, Exec.bind_of_ok (Call.narrowThis_apply hthis hnarrow w), methodTypes, hd, Exec.ofDescriptor,
    Exec.bind_of_ok (Exec.pure_apply d w s)]
  exact hlisting

theorem mapM_narrow_classObject {vs : List Value} {names : List String}
    (h : vs.map s.heap.payload = names.map fun n => .ok (.classObject n)) (w : World) :
    vs.mapM (fun v => Exec.narrow View.classObject v) w s = .ok names s := by
  induction vs generalizing names with
  | nil =>
    cases List.map_eq_nil_iff.1 h.symm
    rfl
  | cons v vs ih =>
    cases names with
    | nil => cases h
    | cons n names =>
      obtain ⟨hv, hvs⟩ := List.cons.inj h
      obtain ⟨id, rfl, hid⟩ := Heap.payload_eq_ok.1 hv
      have hnarrow : s.heap.narrow View.classObject (.ref id) = .ok n := Heap.narrow_eq_ok.2 ⟨id, _, rfl, hid, rfl⟩
      rw [List.mapM_cons, Exec.bind_of_ok (Exec.narrow_of_ok hnarrow w), Exec.bind_of_ok (ih hvs), Exec.pure_apply]

theorem referencesArgument_apply {v : Value} {index : Nat} {descriptor : String} {ps : List Payload}
    (hv : c.arguments[index]? = some v) (hlists : s.heap.Lists v descriptor ps) (w : World) :
    ∃ vs, c.referencesArgument index w s = .ok vs s ∧ vs.map s.heap.payload = ps.map .ok := by
  obtain ⟨id, elements, rfl, harray, helements⟩ := hlists
  have hnarrow : s.heap.narrow View.array (.ref id) = .ok (.reference descriptor elements) :=
    Heap.narrow_eq_ok.2 ⟨id, _, rfl, harray, rfl⟩
  have hnull : ¬ (Value.ref id).isNull = true := nofun
  refine ⟨elements.toList, ?_, helements⟩
  rw [Call.referencesArgument, Exec.bind_of_ok (Exec.ofExcept_of_ok (Call.argument_eq hv) w s), if_neg hnull,
    Exec.bind_of_ok (Exec.narrow_of_ok hnarrow w)]
  exact Exec.ofExcept_of_ok (r := ArrayObject.references (.reference descriptor elements)) rfl w s

/-- A method of the name whose descriptor begins with what is asked for by the class objects of these types. -/
def answers (name : String) (ts : List FieldType) (m : Method) : Bool :=
  m.name == name && ('(' :: askedChars ts ++ [')']).isPrefixOf m.descriptor.toList

/-- The first method that answers, or none. -/
theorem getDeclaredMethod_apply {cls : Nat} {name types : Value} {owner : String} {text : Units} {ts : List FieldType}
    {file : ClassFile} (hthis : c.receiver = some (.ref cls)) (hcls : s.heap.contents? cls = some (.classObject owner))
    (hname : c.arguments[0]? = some name) (htext : s.heap.narrow View.string name = .ok text)
    (htypes : c.arguments[1]? = some types)
    (hlists : s.heap.Lists types "Ljava/lang/Class;" (ts.map fun t => .classObject t.internalName))
    (hfile : w.program.get? owner = some file) (hroom : s.heap.HasRoom 1) :
    getDeclaredMethod c w s =
      match file.methods.find? (answers text.toStringLossy ts) with
      | some m => .ok (.ref s.heap.size) (s.append [(Payload.method ⟨⟨owner, m.name, m.descriptor⟩, false⟩).object])
      | none => .error (.error (.emulation (.exceptionThrown "java/lang/NoSuchMethodException"))) s := by
  obtain ⟨vs, hvs, hpayloads⟩ := referencesArgument_apply htypes hlists w
  have hnames : vs.mapM (fun v => Exec.narrow View.classObject v) w s = .ok (ts.map (·.internalName)) s :=
    mapM_narrow_classObject (by rw [hpayloads, List.map_map, List.map_map]; rfl) w
  have hasked : ("(" ++ String.join ((ts.map (·.internalName)).map classDescriptor) ++ ")").toList =
      '(' :: askedChars ts ++ [')'] := by
    simp [askedChars, String.toList_join, List.flatMap_map]
  rw [getDeclaredMethod, Exec.bind_of_ok (thisClass_apply hthis hcls w),
    Exec.bind_of_ok (Call.stringArgument_apply hname htext w), Exec.bind_of_ok hvs, Exec.bind_of_ok hnames,
    Exec.bind_of_ok (programClass_apply hfile s)]
  simp only [hasked]
  change (match file.methods.find? (answers text.toStringLossy ts) with
    | some m => Exec.allocate (.method { member := ⟨owner, m.name, m.descriptor⟩ })
    | none => Exec.fail (.exceptionThrown "java/lang/NoSuchMethodException")) w s = _
  cases file.methods.find? (answers text.toStringLossy ts) with
  | none => rfl
  | some m => exact Exec.allocate_apply hroom _ w

/-- Objects for a class of a name, a method of it and the name of this method. -/
structure Reflected (h : Heap) (owner : String) (m : Method) (cls method name : Nat) : Prop where
  cls : h.contents? cls = some (.classObject owner)
  method : ∃ accessible, h.contents? method = some (.method ⟨⟨owner, m.name, m.descriptor⟩, accessible⟩)
  name : h.contents? name = some (.string (Units.ofString m.name))

variable {owner : String} {file : ClassFile} {m : Method} {cls method name : Nat}

theorem getDeclaredAgain_apply (h : Reflected s.heap owner m cls method name) (hfile : w.program.get? owner = some file)
    (hd : MethodDescriptor.parse m.descriptor = .ok d) (hroom : s.heap.HasRoom (d.parameters.length + 2)) :
    ∃ t, s.Spares t ∧ getDeclaredAgain (.ref cls) (.ref method) (.ref name) w s =
      match file.methods.find? (answers m.name d.parameters) with
      | some m => .ok (.ref t.heap.size) (t.append [(Payload.method ⟨⟨owner, m.name, m.descriptor⟩, false⟩).object])
      | none => .error (.error (.emulation (.exceptionThrown "java/lang/NoSuchMethodException"))) t := by
  obtain ⟨accessible, hmethod⟩ := h.method
  obtain ⟨types, os, hrun, hlength, hlists⟩ := getParameterTypes_apply
    (c := .onObject .virtual ⟨"java/lang/reflect/Method", "getParameterTypes", "()[Ljava/lang/Class;"⟩ (.ref method) [])
    rfl hmethod hd (hroom.mono (Nat.le_succ _)) w
  have hlast : (s.append os).heap.HasRoom 1 := Heap.HasRoom.append (by rwa [hlength])
  have htext : (s.append os).heap.narrow View.string (.ref name) = .ok (Units.ofString m.name) :=
    Heap.narrow_string.2 ⟨name, rfl, Heap.contents?_append_of_some h.name⟩
  have hname : (Units.ofString m.name).toStringLossy = m.name := by
    rw [Units.toStringLossy, Units.ofString, Units.chars_ofChars, String.ofList_toList]
  refine ⟨s.append os, State.spares_append s os, ?_⟩
  have hcls : (s.append os).heap.contents? cls = some (.classObject owner) := Heap.contents?_append_of_some h.cls
  rw [getDeclaredAgain, Exec.bind_of_ok hrun, getDeclaredMethod_apply rfl hcls rfl htext rfl hlists hfile hlast, hname]

/-- Classes that look like other types are asked for as other types, so that no method with them answers. -/
theorem isPlain_of_answers {name : String} (hd : MethodDescriptor.parse m.descriptor = .ok d)
    (h : answers name d.parameters m) : ∀ t ∈ d.parameters, t.IsPlain := by
  rw [answers, Bool.and_eq_true, List.isPrefixOf_iff_prefix, m.toList_descriptor hd, List.cons_append,
    List.cons_prefix_cons] at h
  exact isPlain_of_askedChars ((List.prefix_append ..).trans h.2.2)

theorem answers_of_isPlain {ts : List FieldType} (hts : ∀ t ∈ ts, t.IsPlain) (name : String) :
    answers name ts = fun m => m.name == name && m.takes ts := by
  funext m
  rw [answers, askedChars_of_isPlain hts, Method.takes]

/-- A search for less that is found by a search for more finds the same. -/
theorem find?_of_imp {p q : Method → Bool} {xs : List Method} {x : Method} (hqp : ∀ y, q y → p y)
    (hx : xs.find? p = some x) (hq : q x) : xs.find? q = some x := by
  obtain ⟨-, before, behind, hxs, hbefore⟩ := List.find?_eq_some_iff_append.1 hx
  refine List.find?_eq_some_iff_append.2 ⟨hq, before, behind, hxs, fun y hy => ?_⟩
  have hno := hbefore y hy
  rw [Bool.not_eq_true', Bool.eq_false_iff] at hno ⊢
  exact mt (hqp y) hno

/-- The first method of a name and types of parameters is the first that begins with these parameters, if that one can
be read. -/
theorem find?_takes_iff (hd : MethodDescriptor.parse m.descriptor = .ok d)
    (hfirst : file.methods.find? (fun x => x.name == m.name && x.parameters? == some d.parameters) = some m) :
    file.methods.find? (fun x => x.name == m.name && x.takes d.parameters) = some m ↔
      ∀ x, file.methods.find? (fun x => x.name == m.name && x.takes d.parameters) = some x →
        ∃ e, MethodDescriptor.parse x.descriptor = .ok e := by
  have hvalues := (MethodDescriptor.parse_eq_ok.1 hd).1.parameters
  have htakes (x : Method) (hx : x.parameters? = some d.parameters) : x.takes d.parameters := by
    obtain ⟨e, he, hsame⟩ := Method.parameters?_eq_some.1 hx
    exact (x.takes_iff_parameters he hvalues).2 hsame
  constructor
  · intro h x hx
    cases h.symm.trans hx
    exact ⟨d, hd⟩
  · intro h
    have hm : m.name == m.name && m.takes d.parameters := by
      rw [beq_self_eq_true, Bool.true_and]
      exact htakes m (Method.parameters?_eq_some.2 ⟨d, hd, rfl⟩)
    obtain ⟨x, hx⟩ := Option.isSome_iff_exists.1 <|
      (List.find?_isSome (p := fun x => x.name == m.name && x.takes d.parameters)).2
        ⟨m, List.mem_of_find?_eq_some hfirst, hm⟩
    obtain ⟨e, he⟩ := h x hx
    have hxtakes := List.find?_some hx
    rw [Bool.and_eq_true, beq_iff_eq] at hxtakes
    have hxparameters : x.parameters? = some d.parameters :=
      Method.parameters?_eq_some.2 ⟨e, he, (x.takes_iff_parameters he hvalues).1 hxtakes.2⟩
    have hxfirst : file.methods.find? (fun x => x.name == m.name && x.parameters? == some d.parameters) = some x := by
      refine find?_of_imp (fun y hy => ?_) hx ?_
      · rw [Bool.and_eq_true, beq_iff_eq, beq_iff_eq] at hy
        rw [Bool.and_eq_true, beq_iff_eq]
        exact ⟨hy.1, htakes y hy.2⟩
      · rw [Bool.and_eq_true, beq_iff_eq, beq_iff_eq]
        exact ⟨hxtakes.1, hxparameters⟩
    rw [hx, ← hfirst, hxfirst]

end Library

/-- The action makes an object for a method and leaves all that there is as it is. -/
def Exec.MakesMethod (x : Exec Value) (w : World) (s : State) (member : MemberRef) : Prop :=
  ∃ v t, x w s = .ok v t ∧ s.Spares t ∧ t.heap.payload v = .ok (.method ⟨member, false⟩)

namespace Library

variable {w : World} {s : State} {d : MethodDescriptor} {owner : String} {file : ClassFile} {m : Method}
  {cls method name : Nat}

theorem makesMethod_iff (h : Reflected s.heap owner m cls method name) (hfile : w.program.get? owner = some file)
    (hd : MethodDescriptor.parse m.descriptor = .ok d) (hroom : s.heap.HasRoom (d.parameters.length + 2))
    (member : MemberRef) : (getDeclaredAgain (.ref cls) (.ref method) (.ref name)).MakesMethod w s member ↔
      ∃ x, file.methods.find? (answers m.name d.parameters) = some x ∧ member = ⟨owner, x.name, x.descriptor⟩ := by
  obtain ⟨t, hspares, hrun⟩ := getDeclaredAgain_apply h hfile hd hroom
  cases hx : file.methods.find? (answers m.name d.parameters) with
  | none =>
    rw [hx] at hrun
    refine iff_of_false ?_ nofun
    rintro ⟨v, u, hv, -⟩
    cases hrun.symm.trans hv
  | some x =>
    rw [hx] at hrun
    have hmade (made : Payload) : (t.append [made.object]).heap.payload (.ref t.heap.size) = .ok made :=
      Heap.payload_eq_ok.2 ⟨_, rfl, Heap.contents?_append_size ..⟩
    constructor
    · rintro ⟨v, u, hv, -, hmember⟩
      cases hrun.symm.trans hv
      cases (hmade _).symm.trans hmember
      exact ⟨x, rfl, rfl⟩
    · rintro ⟨y, hy, rfl⟩
      cases hy
      exact ⟨_, _, hrun, hspares.trans (State.spares_append ..), hmade _⟩

/-- A class object stands for the type that it was made for exactly if this is no class that looks like another type. A
method that is the first of its name and types of parameters is found again by its name and the class objects of these
types exactly if none of them is such a class, and if the first method of the name that begins with these types has a
descriptor that can be read. Otherwise another method of the name is found, or none. -/
theorem declares_again (w : World) (s : State) :
    (∀ t : FieldType, classDescriptor t.internalName = t.descriptor ↔ t.IsPlain) ∧
    ∀ (owner : String) (file : ClassFile) (m : Method) (d : MethodDescriptor) (cls method name : Nat),
      w.program.get? owner = some file → MethodDescriptor.parse m.descriptor = .ok d →
      file.methods.find? (fun x => x.name == m.name && x.parameters? == some d.parameters) = some m →
      Reflected s.heap owner m cls method name → s.heap.HasRoom (d.parameters.length + 2) →
        let again := getDeclaredAgain (.ref cls) (.ref method) (.ref name)
        (again.MakesMethod w s ⟨owner, m.name, m.descriptor⟩ ↔
          (∀ t ∈ d.parameters, t.IsPlain) ∧
          ∀ x, file.methods.find? (fun x => x.name == m.name && x.takes d.parameters) = some x →
            ∃ e, MethodDescriptor.parse x.descriptor = .ok e) ∧
        ((∃ x ∈ file.methods, x.name = m.name ∧ again.MakesMethod w s ⟨owner, x.name, x.descriptor⟩) ∨
          ∃ t, s.Spares t ∧
            again w s = .error (.error (.emulation (.exceptionThrown "java/lang/NoSuchMethodException"))) t) := by
  refine ⟨fun _ => classDescriptor_internalName, fun owner file m d cls method name hfile hd hfirst h hroom => ?_⟩
  have hmakes := makesMethod_iff h hfile hd hroom
  refine ⟨?_, ?_⟩
  · rw [hmakes]
    constructor
    · rintro ⟨x, hx, hsame⟩
      have hxd : MethodDescriptor.parse x.descriptor = .ok d := by
        have hdescriptor : m.descriptor = x.descriptor := congrArg (·.descriptor) hsame
        rwa [← hdescriptor]
      have hplain := isPlain_of_answers hxd (List.find?_some hx)
      refine ⟨hplain, fun y hy => ?_⟩
      rw [answers_of_isPlain hplain] at hx
      cases hx.symm.trans hy
      exact ⟨d, hxd⟩
    · rintro ⟨hplain, hreadable⟩
      rw [answers_of_isPlain hplain]
      exact ⟨m, (find?_takes_iff hd hfirst).2 hreadable, rfl⟩
  · obtain ⟨t, hspares, hrun⟩ := getDeclaredAgain_apply h hfile hd hroom
    cases hx : file.methods.find? (answers m.name d.parameters) with
    | none =>
      rw [hx] at hrun
      exact .inr ⟨t, hspares, hrun⟩
    | some x =>
      have hanswers := List.find?_some hx
      rw [answers, Bool.and_eq_true, beq_iff_eq] at hanswers
      exact .inl ⟨x, List.mem_of_find?_eq_some hx, hanswers.1, (hmakes _).2 ⟨x, hx, rfl⟩⟩

/-- A class `Main` with methods `f` without code. -/
def overloading (descriptors : List String) : ClassFile where
  name := "Main"
  superName := none
  interfaces := []
  access := 0
  poolSize := 0
  fields := []
  methods := descriptors.map fun descriptor => ⟨"f", descriptor, 0, none⟩

def overloadingWorld (descriptors : List String) : World := ⟨⟨[overloading descriptors]⟩, .standard, none, [], .still 0⟩

/-- Objects for the class, for a method `f` of it and for the name of this method. -/
def overloadingState (descriptor : String) : State :=
  .ofPayloads [.classObject "Main", .method ⟨⟨"Main", "f", descriptor⟩, false⟩, .string (Units.ofString "f")]

theorem reflected_overloading (descriptor : String) :
    Reflected (overloadingState descriptor).heap "Main" ⟨"f", descriptor, 0, none⟩ 0 1 2 :=
  ⟨rfl, ⟨false, rfl⟩, rfl⟩

theorem declares_again_array : (getDeclaredAgain (.ref 0) (.ref 1) (.ref 2)).MakesMethod
    (overloadingWorld ["(I)V", "([ILjava/lang/String;)V"]) (overloadingState "([ILjava/lang/String;)V")
    ⟨"Main", "f", "([ILjava/lang/String;)V"⟩ := by
  obtain ⟨-, hdeclares⟩ := declares_again (overloadingWorld ["(I)V", "([ILjava/lang/String;)V"])
    (overloadingState "([ILjava/lang/String;)V")
  obtain ⟨hmakes, -⟩ := hdeclares "Main" (overloading ["(I)V", "([ILjava/lang/String;)V"])
    ⟨"f", "([ILjava/lang/String;)V", 0, none⟩ ⟨[.array .int, .object "java/lang/String"], .void⟩ 0 1 2
    rfl rfl (by decide) (reflected_overloading _) (by decide)
  refine hmakes.2 ⟨by simp [FieldType.IsPlain, FieldType.keywords], fun x hx => ?_⟩
  have hfirst : (overloading ["(I)V", "([ILjava/lang/String;)V"]).methods.find?
      (fun x => x.name == "f" && x.takes [.array .int, .object "java/lang/String"]) =
        some ⟨"f", "([ILjava/lang/String;)V", 0, none⟩ := by decide
  cases hfirst.symm.trans hx
  exact ⟨_, rfl⟩

/-- The only method of a class is not found again, since its parameter is of a class that is called `int`. -/
theorem class_taken_for_int :
    FieldType.parse "Lint;" = .ok (.object "int") ∧
    classDescriptor (FieldType.object "int").internalName ≠ (FieldType.object "int").descriptor ∧
    (overloadingWorld ["(Lint;)V"]).program.get? "Main" = some (overloading ["(Lint;)V"]) ∧
    MethodDescriptor.parse "(Lint;)V" = .ok ⟨[.object "int"], .void⟩ ∧
    (overloading ["(Lint;)V"]).methods.find? (fun x => x.name == "f" && x.parameters? == some [.object "int"]) =
      some ⟨"f", "(Lint;)V", 0, none⟩ ∧
    Reflected (overloadingState "(Lint;)V").heap "Main" ⟨"f", "(Lint;)V", 0, none⟩ 0 1 2 ∧
    (overloadingState "(Lint;)V").heap.HasRoom 3 ∧
    ∃ t, getDeclaredAgain (.ref 0) (.ref 1) (.ref 2) (overloadingWorld ["(Lint;)V"]) (overloadingState "(Lint;)V") =
      .error (.error (.emulation (.exceptionThrown "java/lang/NoSuchMethodException"))) t := by
  have hfile : (overloadingWorld ["(Lint;)V"]).program.get? "Main" = some (overloading ["(Lint;)V"]) := rfl
  have hd : MethodDescriptor.parse "(Lint;)V" = .ok ⟨[.object "int"], .void⟩ := rfl
  have hfirst : (overloading ["(Lint;)V"]).methods.find?
      (fun x => x.name == "f" && x.parameters? == some [.object "int"]) = some ⟨"f", "(Lint;)V", 0, none⟩ := by decide
  have hroom : (overloadingState "(Lint;)V").heap.HasRoom 3 := by decide
  have hnone : (overloading ["(Lint;)V"]).methods.find? (answers "f" [.object "int"]) = none := by decide
  obtain ⟨t, -, hrun⟩ := getDeclaredAgain_apply (reflected_overloading "(Lint;)V") hfile hd hroom
  rw [hnone] at hrun
  exact ⟨rfl, by decide, hfile, hd, hfirst, reflected_overloading _, hroom, t, hrun⟩

end Library

end Jvm
