import Jvm.Assembler
import Jvm.Proofs.Assembly.Branches
import Mathlib.Data.List.Forall2

/-!
# Labels are resolved

`assembled_iff`: what a list of items is assembled to. The rules of `Assembled` say it in terms of where labels are
bound in the list; `assemble` looks names up in a table that it makes on the way. The table has an entry for each
label, in order (`map_fst_bindings`), and as long as no name is bound twice, the entry that is found is the only one
(`lookup_of_boundAt`).
-/

namespace Jvm

namespace Assembler

variable {items before after : List AsmItem} {item : AsmItem} {i : Instruction} {code : List Instruction}
  {name : String} {names seen : List String} {place place' index : Nat} {slots : Option UInt16}
  {result : Except Error MethodBody}

/-- The names that the items bind, in order. -/
def labels (items : List AsmItem) : List String := items.filterMap (·.bound?)

/-- The items that make an instruction each: all but the labels. -/
def emissions (items : List AsmItem) : List AsmItem := items.filter (·.bound?.isNone)

/-- The name is bound, with `place` instructions in front of it. -/
def BoundAt (items : List AsmItem) (name : String) (place : Nat) : Prop :=
  ∃ before after, items = before ++ .label name :: after ∧ place = (emissions before).length

/-- The name is bound for a second time, and none is before that. -/
def BoundAgain (items : List AsmItem) (name : String) : Prop :=
  ∃ before after, items = before ++ .label name :: after ∧ (labels before).Nodup ∧ name ∈ labels before

/-- The name is not bound, though an item refers to it. All names referred to before it are bound. -/
def FirstUnbound (items : List AsmItem) (name : String) : Prop :=
  ∃ before after, items.flatMap (·.uses) = before ++ name :: after ∧ (∀ n ∈ before, n ∈ labels items) ∧
    name ∉ labels items

/-- The instruction of an item, which stands among others that bind its labels. -/
inductive Emits (items : List AsmItem) : AsmItem → Instruction → Prop
  | emit (i : Instruction) : Emits items (.emit i) i
  | jump {opcode : Opcode} {name : String} {target : Nat} (h : BoundAt items name target) :
      Emits items (.jump opcode name) ⟨opcode, .jump target⟩
  | tableSwitch {low : Int32} {name : String} {names : List String} {fallback : Nat} {targets : List Nat}
      (hfallback : BoundAt items name fallback) (htargets : List.Forall₂ (BoundAt items) names targets) :
      Emits items (.tableSwitch low name names)
        ⟨.tableSwitch, .table low (AsmItem.highKey low names.length) fallback targets⟩
  | lookupSwitch {name : String} {names : List (Int32 × String)} {fallback : Nat} {targets : List (Int32 × Nat)}
      (hfallback : BoundAt items name fallback)
      (htargets : List.Forall₂ (fun n t => n.1 = t.1 ∧ BoundAt items n.2 t.2) names targets) :
      Emits items (.lookupSwitch name names) ⟨.lookupSwitch, .lookup fallback targets⟩

/-- The code of items: the instruction of each in order. -/
abbrev Encodes (items : List AsmItem) (code : List Instruction) : Prop :=
  List.Forall₂ (Emits items) (emissions items) code

/-- What comes of items. A name bound twice is worse than one that is not bound, and that is worse than a branch
that leaves the body. -/
inductive Assembled (items : List AsmItem) (slots : Option UInt16) : Except Error MethodBody → Prop
  | duplicate {name : String} (h : BoundAgain items name) : Assembled items slots (.error (.duplicateLabel name))
  | undefined {name : String} (honce : (labels items).Nodup) (h : FirstUnbound items name) :
      Assembled items slots (.error (.undefinedLabel name))
  | malformed {code : List Instruction} {index target : Nat} {opcode : Opcode} (honce : (labels items).Nodup)
      (hcode : Encodes items code) (h : MethodBody.Strays code index opcode target) :
      Assembled items slots (.error (.malformed (.branch index opcode target code.length)))
  | done {code : List Instruction} (honce : (labels items).Nodup) (hcode : Encodes items code)
      (h : ∀ i ∈ code, ∀ target ∈ i.targets, target < code.length) :
      Assembled items slots (.ok (MethodBody.withMaxLocals code.toArray (slots.getD 0)))

/-! ### Where labels are -/

@[simp] theorem labels_append : labels (before ++ after) = labels before ++ labels after :=
  List.filterMap_append

@[simp] theorem labels_label_cons : labels (.label name :: items) = name :: labels items := rfl

/-- A label among the names that are bound is a label among the items. -/
theorem exists_of_labels {names' : List String} (h : labels items = names ++ name :: names') :
    ∃ before after, items = before ++ .label name :: after ∧ labels before = names := by
  obtain ⟨before, rest, rfl, rfl, hrest⟩ := List.filterMap_eq_append_iff.1 h
  obtain ⟨between, item, after, rfl, hbetween, hitem, -⟩ := List.filterMap_eq_cons_iff.1 hrest
  have hlabel : item = .label name := by
    cases item <;> simp_all [AsmItem.bound?]
  have hnone : labels between = [] := List.filterMap_eq_nil_iff.2 hbetween
  subst hlabel
  exact ⟨before ++ between, after, by simp, by rw [labels_append, hnone, List.append_nil, labels]⟩

theorem exists_boundAt (h : name ∈ labels items) : ∃ place, BoundAt items name place := by
  obtain ⟨names, names', heq⟩ := List.append_of_mem h
  obtain ⟨before, after, hitems, -⟩ := exists_of_labels heq
  exact ⟨_, before, after, hitems, rfl⟩

theorem BoundAt.mem_labels (h : BoundAt items name place) : name ∈ labels items := by
  obtain ⟨before, after, rfl, -⟩ := h
  simp

/-! ### Names bound twice -/

theorem firstRepeated_eq_some : firstRepeated seen names = some name ↔
    ∃ before after, names = before ++ name :: after ∧ before.Nodup ∧ (∀ n ∈ before, n ∉ seen) ∧
      (name ∈ seen ∨ name ∈ before) := by
  induction names generalizing seen with
  | nil => simp [firstRepeated]
  | cons n names ih =>
    rw [firstRepeated]
    by_cases hn : n ∈ seen
    · rw [if_pos (List.contains_iff_mem.2 hn)]
      constructor
      · rintro ⟨⟩
        exact ⟨[], names, rfl, .nil, nofun, .inl hn⟩
      · rintro ⟨before, after, heq, -, hnew, -⟩
        cases before with
        | nil =>
          obtain ⟨rfl, -⟩ := List.cons.inj heq
          rfl
        | cons n' before =>
          obtain ⟨rfl, -⟩ := List.cons.inj heq
          exact absurd hn (hnew n List.mem_cons_self)
    · rw [if_neg fun h => hn (List.contains_iff_mem.1 h), ih]
      constructor
      · rintro ⟨before, after, rfl, hnodup, hnew, hagain⟩
        refine ⟨n :: before, after, rfl, List.nodup_cons.2 ⟨fun h => hnew n h List.mem_cons_self, hnodup⟩, ?_, ?_⟩
        · exact List.forall_mem_cons.2 ⟨hn, fun m hm h => hnew m hm (List.mem_cons_of_mem _ h)⟩
        · simp only [List.mem_cons] at hagain ⊢
          tauto
      · rintro ⟨before, after, heq, hnodup, hnew, hagain⟩
        cases before with
        | nil =>
          obtain ⟨rfl, -⟩ := List.cons.inj heq
          exact absurd (hagain.resolve_right List.not_mem_nil) hn
        | cons n' before =>
          obtain ⟨rfl, rfl⟩ := List.cons.inj heq
          obtain ⟨hfirst, hnodup⟩ := List.nodup_cons.1 hnodup
          refine ⟨before, after, rfl, hnodup, fun m hm h => ?_, ?_⟩
          · rcases List.mem_cons.1 h with rfl | h
            · exact hfirst hm
            · exact hnew m (List.mem_cons_of_mem _ hm) h
          · simp only [List.mem_cons] at hagain ⊢
            tauto

theorem firstRepeated_eq_none : firstRepeated seen names = none ↔ names.Nodup ∧ ∀ n ∈ names, n ∉ seen := by
  induction names generalizing seen with
  | nil => simp [firstRepeated]
  | cons n names ih =>
    rw [firstRepeated, List.nodup_cons, List.forall_mem_cons]
    by_cases hn : n ∈ seen
    · simp [hn]
    · rw [if_neg fun h => hn (List.contains_iff_mem.1 h), ih]
      simp only [List.mem_cons, not_or]
      constructor
      · rintro ⟨hnodup, hnew⟩
        exact ⟨⟨fun h => (hnew n h).1 rfl, hnodup⟩, hn, fun m hm => (hnew m hm).2⟩
      · rintro ⟨⟨hfirst, hnodup⟩, -, hnew⟩
        exact ⟨hnodup, fun m hm => ⟨fun heq => hfirst (heq ▸ hm), hnew m hm⟩⟩

theorem nodup_labels_iff : (labels items).Nodup ↔ firstRepeated [] (items.filterMap (·.bound?)) = none := by
  rw [firstRepeated_eq_none]
  exact ⟨fun h => ⟨h, fun _ _ => List.not_mem_nil⟩, And.left⟩

theorem boundAgain_iff : BoundAgain items name ↔ firstRepeated [] (labels items) = some name := by
  rw [firstRepeated_eq_some]
  constructor
  · rintro ⟨before, after, rfl, hnodup, hagain⟩
    exact ⟨labels before, labels after, by simp, hnodup, fun _ _ => List.not_mem_nil, .inr hagain⟩
  · rintro ⟨names, names', heq, hnodup, -, hagain⟩
    obtain ⟨before, after, hitems, rfl⟩ := exists_of_labels heq
    exact ⟨before, after, hitems, hnodup, hagain.resolve_left List.not_mem_nil⟩

/-! ### The table of labels -/

theorem map_fst_bindings : (bindings index items).map Prod.fst = labels items := by
  induction items generalizing index with
  | nil => rfl
  | cons item items ih => cases item <;> simp [bindings, labels, AsmItem.bound?, ih]

theorem bindings_append :
    bindings index (before ++ after) = bindings index before ++ bindings (index + (emissions before).length) after := by
  induction before generalizing index with
  | nil => rfl
  | cons item before ih =>
    cases item <;> simp [bindings, emissions, AsmItem.bound?, ih, Nat.add_assoc, Nat.add_comm 1]

theorem isNone_lookup : ((bindings 0 items).lookup name).isNone = true ↔ name ∉ labels items := by
  have hlabels : labels items = (bindings 0 items).map Prod.fst := map_fst_bindings.symm
  rw [Option.isNone_iff_eq_none, List.lookup_eq_none_iff, hlabels]
  simp only [bne_iff_ne, List.mem_map, not_exists, not_and]
  exact ⟨fun h p hp heq => h p hp heq.symm, fun h p hp heq => h p hp heq.symm⟩

theorem lookup_of_boundAt (honce : (labels items).Nodup) (h : BoundAt items name place) :
    (bindings 0 items).lookup name = some place := by
  obtain ⟨before, after, rfl, rfl⟩ := h
  rw [labels_append, labels_label_cons] at honce
  have hbefore : name ∉ labels before := fun hmem => (List.nodup_append.1 honce).2.2 _ hmem _ List.mem_cons_self rfl
  rw [bindings_append, Nat.zero_add, List.lookup_append, Option.isNone_iff_eq_none.1 (isNone_lookup.2 hbefore),
    Option.none_or, bindings]
  simp

/-- Where the table has a name; a name that it lacks is at the start. -/
def placeOf (items : List AsmItem) (name : String) : Nat := ((bindings 0 items).lookup name).getD 0

theorem boundAt_iff (honce : (labels items).Nodup) : BoundAt items name place ↔
    name ∈ labels items ∧ placeOf items name = place := by
  have hplace : ∀ {place}, BoundAt items name place → placeOf items name = place := fun h => by
    rw [placeOf, lookup_of_boundAt honce h, Option.getD_some]
  constructor
  · exact fun h => ⟨h.mem_labels, hplace h⟩
  · rintro ⟨hmem, rfl⟩
    obtain ⟨place, h⟩ := exists_boundAt hmem
    rwa [hplace h]

/-! ### Instructions -/

/-- A relation that says which function and where is its graph there. -/
theorem forall₂_graph {α β : Type} {f : α → β} {P : α → Prop} {as : List α} {bs : List β} :
    List.Forall₂ (fun a b => P a ∧ f a = b) as bs ↔ (∀ a ∈ as, P a) ∧ as.map f = bs := by
  rw [List.forall₂_and_left, ← List.forall₂_map_left_iff, List.forall₂_eq_eq_eq]

theorem forall₂_boundAt_iff (honce : (labels items).Nodup) {places : List Nat} :
    List.Forall₂ (BoundAt items) names places ↔
      (∀ n ∈ names, n ∈ labels items) ∧ names.map (placeOf items) = places := by
  simp only [← forall₂_graph, ← boundAt_iff honce]

theorem forall₂_boundAt_keys_iff (honce : (labels items).Nodup) {names : List (Int32 × String)}
    {targets : List (Int32 × Nat)} :
    List.Forall₂ (fun n t => n.1 = t.1 ∧ BoundAt items n.2 t.2) names targets ↔
      (∀ n ∈ names.map (·.2), n ∈ labels items) ∧ (names.map fun n => (n.1, placeOf items n.2)) = targets := by
  rw [List.forall_mem_map, ← forall₂_graph]
  simp only [boundAt_iff honce, Prod.ext_iff, and_left_comm]

theorem emits_iff (honce : (labels items).Nodup) : Emits items item i ↔
    (∀ n ∈ item.uses, n ∈ labels items) ∧ item.instruction? (placeOf items) = some i := by
  constructor
  · intro h
    cases h with
    | emit => exact ⟨nofun, rfl⟩
    | jump h =>
      obtain ⟨hmem, rfl⟩ := (boundAt_iff honce).1 h
      exact ⟨List.forall_mem_singleton.2 hmem, rfl⟩
    | tableSwitch hfallback htargets =>
      obtain ⟨hmem, rfl⟩ := (boundAt_iff honce).1 hfallback
      obtain ⟨hmems, rfl⟩ := (forall₂_boundAt_iff honce).1 htargets
      exact ⟨List.forall_mem_cons.2 ⟨hmem, hmems⟩, rfl⟩
    | lookupSwitch hfallback htargets =>
      obtain ⟨hmem, rfl⟩ := (boundAt_iff honce).1 hfallback
      obtain ⟨hmems, rfl⟩ := (forall₂_boundAt_keys_iff honce).1 htargets
      exact ⟨List.forall_mem_cons.2 ⟨hmem, hmems⟩, rfl⟩
  · rintro ⟨hmem, h⟩
    cases item with
    | label => cases h
    | emit =>
      cases h
      exact .emit _
    | jump =>
      cases h
      exact .jump ((boundAt_iff honce).2 ⟨List.forall_mem_singleton.1 hmem, rfl⟩)
    | tableSwitch =>
      cases h
      obtain ⟨hmem, hmems⟩ := List.forall_mem_cons.1 hmem
      exact .tableSwitch ((boundAt_iff honce).2 ⟨hmem, rfl⟩) ((forall₂_boundAt_iff honce).2 ⟨hmems, rfl⟩)
    | lookupSwitch =>
      cases h
      obtain ⟨hmem, hmems⟩ := List.forall_mem_cons.1 hmem
      exact .lookupSwitch ((boundAt_iff honce).2 ⟨hmem, rfl⟩) ((forall₂_boundAt_keys_iff honce).2 ⟨hmems, rfl⟩)

/-- Each emission makes an instruction, and a label makes none. -/
theorem isSome_instruction? (place : String → Nat) :
    (item.instruction? place).isSome = item.bound?.isNone := by
  cases item <;> rfl

theorem encodes_iff (honce : (labels items).Nodup) : Encodes items code ↔
    (∀ n ∈ items.flatMap (·.uses), n ∈ labels items) ∧ items.filterMap (·.instruction? (placeOf items)) = code := by
  suffices hall : ∀ rest code, List.Forall₂ (Emits items) (emissions rest) code ↔
      (∀ n ∈ rest.flatMap (·.uses), n ∈ labels items) ∧ rest.filterMap (·.instruction? (placeOf items)) = code from
    hall items code
  intro rest
  induction rest with
  | nil => simp [emissions, eq_comm]
  | cons item rest ih =>
    intro code
    rw [List.flatMap_cons, List.forall_mem_append, List.filterMap_cons, emissions, List.filter_cons,
      ← isSome_instruction? (placeOf items)]
    cases hitem : item.instruction? (placeOf items) with
    | none =>
      have huses : item.uses = [] := by cases item <;> first | rfl | cases hitem
      simpa [huses, emissions] using ih code
    | some i =>
      simp only [Option.isSome_some, if_true]
      constructor
      · rintro (_ | ⟨hfirst, hrest⟩)
        obtain ⟨hmem, heq⟩ := (emits_iff honce).1 hfirst
        obtain ⟨hmems, rfl⟩ := (ih _).1 hrest
        cases hitem.symm.trans heq
        exact ⟨⟨hmem, hmems⟩, rfl⟩
      · rintro ⟨⟨hmem, hmems⟩, rfl⟩
        exact .cons ((emits_iff honce).2 ⟨hmem, hitem⟩) ((ih _).2 ⟨hmems, rfl⟩)

/-! ### What comes of items -/

theorem assemble_of_boundAgain (h : BoundAgain items name) :
    assemble items slots = .error (.duplicateLabel name) := by
  have hrepeated : firstRepeated [] (items.filterMap (·.bound?)) = some name := boundAgain_iff.1 h
  rw [assemble, hrepeated]

theorem allBound_iff : (∀ n ∈ items.flatMap (·.uses), n ∈ labels items) ↔
    ((items.flatMap (·.uses)).find? fun n => ((bindings 0 items).lookup n).isNone) = none := by
  simp only [List.find?_eq_none, isNone_lookup, Classical.not_not]

theorem firstUnbound_iff : FirstUnbound items name ↔
    ((items.flatMap (·.uses)).find? fun n => ((bindings 0 items).lookup n).isNone) = some name := by
  rw [List.find?_eq_some_iff_append]
  simp only [Bool.not_eq_true', ← Bool.not_eq_true, isNone_lookup, Classical.not_not]
  exact ⟨fun ⟨before, after, heq, hbefore, hname⟩ => ⟨hname, before, after, heq, hbefore⟩,
    fun ⟨hname, before, after, heq, hbefore⟩ => ⟨before, after, heq, hbefore, hname⟩⟩

theorem assemble_of_firstUnbound (honce : (labels items).Nodup) (h : FirstUnbound items name) :
    assemble items slots = .error (.undefinedLabel name) := by
  rw [assemble, nodup_labels_iff.1 honce]
  simp only [firstUnbound_iff.1 h]

/-- If names are bound once and items can be encoded, the code is checked for stray branches. -/
theorem assemble_of_encodes (honce : (labels items).Nodup) (hcode : Encodes items code) :
    assemble items slots =
      match (MethodBody.withMaxLocals code.toArray (slots.getD 0)).validate with
      | .error e => .error e
      | .ok () => .ok (MethodBody.withMaxLocals code.toArray (slots.getD 0)) := by
  obtain ⟨hbound, rfl⟩ := (encodes_iff honce).1 hcode
  rw [assemble, nodup_labels_iff.1 honce]
  simp only [allBound_iff.1 hbound]
  rfl

theorem assembled_assemble (items : List AsmItem) (slots : Option UInt16) :
    Assembled items slots (assemble items slots) := by
  cases hrepeated : firstRepeated [] (labels items) with
  | some name =>
    have hagain := boundAgain_iff.2 hrepeated
    rw [assemble_of_boundAgain hagain]
    exact .duplicate hagain
  | none =>
    have honce := nodup_labels_iff.2 hrepeated
    cases hunbound : (items.flatMap (·.uses)).find? fun n => ((bindings 0 items).lookup n).isNone with
    | some name =>
      have hfirst := firstUnbound_iff.2 hunbound
      rw [assemble_of_firstUnbound honce hfirst]
      exact .undefined honce hfirst
    | none =>
      have hcode := (encodes_iff honce).2 ⟨allBound_iff.2 hunbound, rfl⟩
      rw [assemble_of_encodes honce hcode]
      rcases (MethodBody.withMaxLocals _ (slots.getD 0)).validate_or_strays with
        ⟨hvalid, hin⟩ | ⟨index, opcode, target, hstrays⟩
      · rw [hvalid]
        exact .done honce hcode hin
      · rw [MethodBody.validate_of_strays hstrays]
        exact .malformed honce hcode hstrays

theorem Assembled.eq (h : Assembled items slots result) : assemble items slots = result := by
  cases h with
  | duplicate h => exact assemble_of_boundAgain h
  | undefined honce h => exact assemble_of_firstUnbound honce h
  | @malformed code index target opcode honce hcode h =>
    have hstrays : MethodBody.Strays (MethodBody.withMaxLocals code.toArray (slots.getD 0)).instructions.toList
        index opcode target := h
    rw [assemble_of_encodes honce hcode, MethodBody.validate_of_strays hstrays]
    rfl
  | @done code honce hcode h =>
    have hvalid : (MethodBody.withMaxLocals code.toArray (slots.getD 0)).validate = .ok () :=
      MethodBody.validate_iff.2 fun n i hi => h i (List.mem_of_getElem? (Array.getElem?_toList.trans hi))
    rw [assemble_of_encodes honce hcode, hvalid]

/-- Items are assembled as the rules say: the error is that of the first name bound twice, else that of the first
name that is not bound, else that of the first branch out of the body; and if there is none of these, the body has
the instruction of each item in order, and a label is the number of the instructions in front of it. -/
theorem assembled_iff (items : List AsmItem) (slots : Option UInt16) (result : Except Error MethodBody) :
    Assembled items slots result ↔ assemble items slots = result :=
  ⟨Assembled.eq, fun h => h ▸ assembled_assemble items slots⟩

end Assembler

end Jvm
