import Jvm.Proofs.Machine.Issued
import Jvm.Proofs.Machine.Throughout

/-!
# Objects live on

Whatever the machine is asked for, each heap that it has leads to every later one by single alterations
(`Chain.passed_session`). So the laws of an alteration are the laws of the whole life of an object: it is never
removed, keeps its class, gets contents at most once, and these keep their kind. Interned texts keep their object,
and the objects of two texts are different ones, at whatever times these were interned (`Chain.session_heap`).
-/

namespace Jvm

variable {w : World}

/-- The reference that interning gives is the one of the table. -/
theorem Exec.intern_ok {text : Units} {v : Value} {s t : State} (hx : Exec.intern text w s = .ok v t) :
    ∃ id, v = .ref id ∧ t.heap.interned? text = some id := by
  obtain ⟨id, hid, rfl, hh⟩ | ⟨-, -, rfl, hh⟩ := Heap.interning_ok ((onHeap_intern text).of_ok hx)
  · exact ⟨id, rfl, by rw [hh]; exact hid⟩
  · exact ⟨s.heap.size, rfl, by rw [hh, Heap.interned?_pushInterned, if_pos rfl]⟩

namespace Heap

variable {h h' : Heap}

theorem exists_object_iff {id : Nat} : (∃ o, h.object (.ref id) = .ok o) ↔ id < h.size := by
  refine ⟨?_, exists_object⟩
  rintro ⟨o, ho⟩
  exact issued_of_object ho id rfl

/-- Texts that are interned one after the other have one object if and only if they are equal. -/
theorem interned_inj (hl : h.Lasts h') (hp : h'.Proper) {a b : Units} {id id' : Nat} (ha : h.interned? a = some id)
    (hb : h'.interned? b = some id') : id = id' ↔ a = b := by
  have ha' := hl.interned _ _ ha
  constructor
  · intro hid
    have hstring := hp.strings _ (mem_of_interned? hb)
    rw [← hid] at hstring
    cases (hp.strings _ (mem_of_interned? ha')).symm.trans hstring
    rfl
  · rintro rfl
    exact Option.some.inj (ha'.symm.trans hb)

/-- The heaps of the moments so far and the present one lead to each other in order, from the first one on. -/
structure Passed (h₀ : Heap) (L : List Moment) (s : State) : Prop where
  start : h₀.Leads True s.heap
  first : ∀ p ∈ L, h₀.Leads True p.state.heap
  present : ∀ p ∈ L, p.state.heap.Leads True s.heap
  inOrder : L.Pairwise fun p q => p.state.heap.Leads True q.state.heap

namespace Passed

variable {h₀ : Heap} {L : List Moment} {s t : State}

theorem leads (hL : h₀.Passed L s) (hst : s.heap.Leads True t.heap) : h₀.Passed L t :=
  ⟨hL.start.trans hst, hL.first, fun p hp => (hL.present p hp).trans hst, hL.inOrder⟩

theorem told (hL : h₀.Passed L s) (e : Event) : h₀.Passed (L ++ [⟨e, s⟩]) s := by
  refine ⟨hL.start, fun p hp => ?_, fun p hp => ?_, ?_⟩
  · rcases List.mem_append.1 hp with hp | hp
    · exact hL.first p hp
    · rw [List.mem_singleton.1 hp]
      exact hL.start
  · rcases List.mem_append.1 hp with hp | hp
    · exact hL.present p hp
    · rw [List.mem_singleton.1 hp]
      exact .refl _
  · refine List.pairwise_append.2 ⟨hL.inOrder, List.pairwise_singleton .., fun p hp q hq => ?_⟩
    rw [List.mem_singleton.1 hq]
    exact hL.present p hp

end Passed

end Heap

namespace Chain

theorem tracks_passed (chain : Chain) (w : World) (h₀ : Heap) : Tracks chain w h₀.Passed where
  changed hL hst := hL.leads (hst.heap.mono False.elim)
  noted _ hL := hL.leads (.refl _)
  told e _ hL := hL.told e
  uses _ hL := hL.told _
  executed hx hL := (hL.leads (hx.changes fun _ => trivial).heap).told _

theorem passed_session (w : World) (tasks : List (Nat × Task)) :
    ∃ s, (Heap.empty w.limits.heapObjects).Passed (standard.session w tasks (.start w.limits)) s :=
  (tracks_passed standard w _).session (s := .start w.limits) ordinary_standard tasks
    ⟨.refl _, fun _ hp => (List.not_mem_nil hp).elim, fun _ hp => (List.not_mem_nil hp).elim, .nil⟩

/-- Each heap of the machine leads to every later one. Between two that were passed in this order, objects last,
references are those below the number of objects, and interning tells texts apart. -/
theorem session_heap (w : World) (tasks : List (Nat × Task)) {i j : Nat} {p q : Moment}
    (hp : (standard.session w tasks (.start w.limits))[i]? = some p)
    (hq : (standard.session w tasks (.start w.limits))[j]? = some q) (hij : i ≤ j) :
    p.state.heap.Leads True q.state.heap ∧
    ∀ h h' : Heap, p.state.heap.Leads True h → h.Leads True h' → h'.Leads True q.state.heap →
      h.Lasts h' ∧ h'.Proper ∧ h'.limit = w.limits.heapObjects ∧
      (∀ id, (∃ o, h'.object (.ref id) = .ok o) ↔ id < h'.size) ∧
      ∀ {a b : Units} {v v' : Value} {s t s' t' : State}, Exec.intern a w s = .ok v t → t.heap = h →
        Exec.intern b w s' = .ok v' t' → t'.heap = h' → (v = v' ↔ a = b) := by
  obtain ⟨_, hL⟩ := passed_session w tasks
  refine ⟨?_, fun h h' hph hh' _ => ?_⟩
  · rcases Nat.eq_or_lt_of_le hij with rfl | hlt
    · cases hp.symm.trans hq
      exact .refl _
    · obtain ⟨hi, rfl⟩ := List.getElem?_eq_some_iff.1 hp
      obtain ⟨hj, rfl⟩ := List.getElem?_eq_some_iff.1 hq
      exact List.pairwise_iff_getElem.1 hL.inOrder i j hi hj hlt
  · have hstart := ((hL.first p (List.mem_of_getElem? hp)).trans hph).trans hh'
    have hproper := hstart.proper (Heap.proper_empty _)
    refine ⟨hh'.lasts, hproper, hstart.lasts.limit, fun id => Heap.exists_object_iff, ?_⟩
    intro a b v v' s t s' t' ha ht hb ht'
    obtain ⟨id, rfl, hid⟩ := Exec.intern_ok ha
    obtain ⟨id', rfl, hid'⟩ := Exec.intern_ok hb
    rw [ht] at hid
    rw [ht'] at hid'
    rw [Value.ref.injEq]
    exact Heap.interned_inj hh'.lasts hproper hid hid'

/-- Returns a constant text. -/
def greet : Method :=
  ⟨"greet", "()Ljava/lang/String;", 8, some ⟨#[⟨.ldc, .const (.string [104, 105])⟩, ⟨.valueReturn .ref, .none⟩], 0⟩⟩

def greeter : ClassFile := ⟨"Greeter", none, [], 0, 0, [], [greet]⟩

def greeterWorld : World := ⟨⟨[greeter]⟩, .standard, none, [], .still 0⟩

/-- The text of the method, and then another one. -/
def greeterTasks : List (Nat × Task) := [(3, .execute greeter greet [] none), (1, .intern [104, 111])]

theorem session_heap_greeter : ∃ p q,
    (standard.session greeterWorld greeterTasks (.start greeterWorld.limits))[2]? = some p ∧
    (standard.session greeterWorld greeterTasks (.start greeterWorld.limits))[7]? = some q ∧
    p.state.heap.Lasts q.state.heap ∧ ((Value.ref 0 = .ref 1) ↔ ([104, 105] : Units) = [104, 111]) := by
  have hp : ((standard.session greeterWorld greeterTasks (.start greeterWorld.limits))[2]?).map (·.state.heap) =
      some ((Heap.empty 100000).pushInterned [104, 105]).2 := by decide +kernel
  have hq : ((standard.session greeterWorld greeterTasks (.start greeterWorld.limits))[7]?).map (·.state.heap) =
      some (((Heap.empty 100000).pushInterned [104, 105]).2.pushInterned [104, 111]).2 := by decide +kernel
  obtain ⟨p, hp, hph⟩ := Option.map_eq_some_iff.1 hp
  obtain ⟨q, hq, hqh⟩ := Option.map_eq_some_iff.1 hq
  obtain ⟨hpq, hlaws⟩ := session_heap greeterWorld greeterTasks hp hq (by decide)
  obtain ⟨hlasts, -, -, -, hintern⟩ := hlaws _ _ (.refl _) hpq (.refl _)
  refine ⟨p, q, hp, hq, hlasts, ?_⟩
  -- interning the first text makes the one object, and the second one after that the other
  have hfirst : Exec.intern [104, 105] greeterWorld (.start .standard) =
      .ok (.ref 0) { State.start .standard with heap := p.state.heap } := by
    rw [hph]
    rfl
  have hsecond : Exec.intern [104, 111] greeterWorld { State.start .standard with heap := p.state.heap } =
      .ok (.ref 1) { State.start .standard with heap := q.state.heap } := by
    rw [hph, hqh]
    rfl
  exact hintern hfirst rfl hsecond rfl

end Chain

end Jvm
