import Jvm.Locals
import Mathlib.Data.List.Induction

/-!
# Local variables by their history

A local variable holds the value that was last stored at its index, as long as nothing has been stored since into a
slot that this value takes up (`load_iff_last_store`). The second slot of a wide value is never readable, so to look
one slot back is enough for a store to find the value that it destroys (`slot_store`).
-/

namespace Jvm

theorem Value.words_eq (v : Value) :
    v.width.words = 1 ∧ v.width = .single ∨ v.width.words = 2 ∧ v.width = .double := by
  cases v.width with
  | single => exact .inl ⟨rfl, rfl⟩
  | double => exact .inr ⟨rfl, rfl⟩

theorem Value.words_of_double {v : Value} (h : v.width = .double) : v.width.words = 2 := by
  rw [h]
  rfl

namespace Locals

/-- What a slot holds; beyond the last one there is nothing. -/
def slot (l : Locals) (n : Nat) : Value := l.slots[n]?.getD .top

/-- There are all the slots that a value takes up at an index. -/
def HasRoom (l : Locals) (index : Nat) (v : Value) : Prop := index + v.width.words ≤ l.size

/-- A value of a given width at an index takes up a slot. -/
def Occupies (n index : Nat) (v : Value) : Prop := index ≤ n ∧ n < index + v.width.words

/-- Two values at their indices have no slot in common. -/
def Apart (i : Nat) (v : Value) (j : Nat) (u : Value) : Prop := ∀ n, ¬ (Occupies n i v ∧ Occupies n j u)

/-- Each wide value is followed by a slot without a value. -/
def Padded (l : Locals) : Prop := ∀ n, (l.slot n).width = .double → n + 1 < l.size ∧ l.slot (n + 1) = .top

variable {l l' : Locals} {i j n : Nat} {u v : Value}

/-- Two values have a slot in common just if neither lies wholly in front of the other. -/
theorem apart_iff : Apart i v j u ↔ i + v.width.words ≤ j ∨ j + u.width.words ≤ i := by
  have hv := v.words_eq
  have hu := u.words_eq
  constructor
  · intro h
    have hi := h i
    have hj := h j
    unfold Occupies at hi hj
    omega
  · rintro h n ⟨⟨_, _⟩, _, _⟩
    omega

/-! ### Single accesses -/

theorem slot_eq_top (h : l.size ≤ n) : l.slot n = .top := by
  rw [slot, Array.getElem?_eq_none h]
  rfl

/-- Where there is the slot, only a value is missing if a load fails. -/
theorem load_eq (h : n < l.size) : l.load n =
    if l.slot n = .top ∨ l.slot n = .void then .error (.typeMismatch "load" "initialized local" "top")
    else .ok (l.slot n) := by
  have hslot : l.slots[n]?.getD .top = l.slot n := rfl
  unfold load check
  rw [if_neg (by omega), hslot]
  cases l.slot n <;> simp <;> rfl

theorem load_eq_ok : l.load n = .ok v ↔ l.slot n = v ∧ v ≠ .top ∧ v ≠ .void := by
  by_cases hn : n < l.size
  · rw [load_eq hn]
    split
    · rename_i hnone
      refine ⟨nofun, fun h => ?_⟩
      rw [h.1] at hnone
      exact absurd hnone (not_or.2 h.2)
    · rename_i hsome
      rw [Except.ok.injEq]
      refine ⟨fun h => ⟨h, ?_⟩, fun h => h.1⟩
      rw [← h]
      exact not_or.1 hsome
  · have hfault : l.load n = .error (.localIndex (n + 1 - 1) l.size) := by
      unfold load check
      rw [if_pos (by omega)]
      rfl
    rw [hfault, slot_eq_top (by omega)]
    exact ⟨nofun, fun h => absurd h.1.symm h.2.1⟩

theorem exists_store : (∃ l', l.store j u = .ok l') ↔ l.HasRoom j u := by
  unfold store check HasRoom
  split
  · exact ⟨nofun, fun h => by omega⟩
  · exact ⟨fun _ => by omega, fun _ => ⟨_, rfl⟩⟩

/-- A store keeps the number of slots. -/
theorem size_store (h : l.store j u = .ok l') : l'.size = l.size := by
  unfold store check at h
  split at h
  · cases h
  · cases h
    simp only [size]
    split <;> split <;> simp

theorem slot_set (xs : Array Value) (i : Nat) (v : Value) (n : Nat) :
    slot ⟨xs.setIfInBounds i v⟩ n = if n = i ∧ i < xs.size then v else slot ⟨xs⟩ n := by
  unfold slot
  rw [Array.getElem?_setIfInBounds]
  by_cases hin : i = n
  · subst hin
    by_cases hsize : i < xs.size
    · simp [hsize]
    · simp [hsize]
  · simp [hin, Ne.symm hin]

/-- The slots are changed one after the other. -/
theorem slot_writes (h : l.store j u = .ok l') (n : Nat) : l'.slot n =
    if n = j + 1 ∧ u.width = .double then .top
    else if n = j then u
    else if n = j - 1 ∧ l.reachesInto j = true then .top
    else l.slot n := by
  have hroom : j + u.width.words ≤ l.slots.size := exists_store.1 ⟨l', h⟩
  have hj : j < l.slots.size := by have := u.words_eq; omega
  have hfront : j - 1 < l.slots.size := by omega
  have hsecond : u.width = .double → j + 1 < l.slots.size := fun hw => by rw [hw] at hroom; exact hroom
  unfold store check at h
  split at h
  · cases h
  · cases h
    by_cases hw : u.width = .double <;> by_cases hr : l.reachesInto j = true <;>
      simp [hw, hr, hsecond, hj, hfront, slot_set]

/-- A store changes the slots of its value, and the one in front where this is the first of a wide value. -/
theorem slot_store (h : l.store j u = .ok l') (n : Nat) : l'.slot n =
    if n = j then u
    else if n = j + 1 ∧ u.width = .double then .top
    else if n + 1 = j ∧ (l.slot n).width = .double then .top
    else l.slot n := by
  have hfront : l.reachesInto j = true ↔ 0 < j ∧ (l.slot (j - 1)).width = .double := by simp [reachesInto, slot]
  rw [slot_writes h]
  by_cases hj : n = j
  · simp [hj]
  by_cases hsecond : n = j + 1
  · have hfirst : n ≠ j - 1 := by omega
    have hlater : n + 1 ≠ j := by omega
    simp [hsecond ▸ hfirst, hsecond ▸ hlater, hsecond]
  by_cases hbefore : n + 1 = j
  · subst hbefore
    simp [hfront]
  · have hne : n ≠ j - 1 := by omega
    simp [hj, hsecond, hbefore, hne]

/-- A store leaves just its own value and those that it has no slot in common with. -/
theorem load_store (h : l.store j u = .ok l') (hu : u ≠ .top ∧ u ≠ .void) :
    l'.load i = .ok v ↔ i = j ∧ v = u ∨ l.load i = .ok v ∧ Apart i v j u := by
  have hwordsu := u.words_eq
  have hwordsv := v.words_eq
  rw [load_eq_ok, load_eq_ok, slot_store h, apart_iff]
  have hgone : ¬ (Value.top = v ∧ v ≠ .top ∧ v ≠ .void) := fun hv => hv.2.1 hv.1.symm
  by_cases hij : i = j
  · subst hij
    rw [if_pos rfl]
    constructor
    · rintro ⟨rfl, -⟩
      exact .inl ⟨rfl, rfl⟩
    · rintro (⟨-, rfl⟩ | ⟨-, happart⟩)
      · exact ⟨rfl, hu⟩
      · omega
  rw [if_neg hij]
  split_ifs with hsecond hfront
  · -- the index is the second slot of the value stored
    refine ⟨fun hv => absurd hv hgone, ?_⟩
    rintro (⟨hi, -⟩ | ⟨-, happart⟩)
    · exact absurd hi hij
    · have hwide : u.width.words = 2 := Value.words_of_double hsecond.2
      omega
  · -- the value at the index reaches into the one stored
    refine ⟨fun hv => absurd hv hgone, ?_⟩
    rintro (⟨hi, -⟩ | ⟨⟨rfl, -⟩, happart⟩)
    · exact absurd hi hij
    · have hwide : (l.slot i).width.words = 2 := Value.words_of_double hfront.2
      omega
  · constructor
    · rintro ⟨rfl, hv⟩
      refine .inr ⟨⟨rfl, hv⟩, ?_⟩
      have hshortu : i = j + 1 → u.width.words = 1 := fun hi =>
        hwordsu.elim And.left fun hwide => absurd ⟨hi, hwide.2⟩ hsecond
      have hshort : i + 1 = j → (l.slot i).width.words = 1 := fun hi =>
        hwordsv.elim And.left fun hwide => absurd ⟨hi, hwide.2⟩ hfront
      omega
    · rintro (⟨hi, -⟩ | ⟨hv, -⟩)
      · exact absurd hi hij
      · exact hv

/-- A store keeps wide values in front of a slot without a value. -/
theorem Padded.store (hl : l.Padded) (h : l.store j u = .ok l') : l'.Padded := by
  have hroom : j + u.width.words ≤ l.size := exists_store.1 ⟨l', h⟩
  intro n hn
  rw [slot_store h] at hn ⊢
  rw [size_store h]
  split_ifs at hn with hj hsecond hfront
  · -- the value stored
    have hwide := Value.words_of_double hn
    have hne : n + 1 ≠ j := by omega
    rw [if_neg hne, if_pos ⟨by rw [hj], hn⟩]
    exact ⟨by omega, rfl⟩
  · cases hn
  · cases hn
  · obtain ⟨hsize, htop⟩ := hl n hn
    have hne : n + 1 ≠ j := fun hj => hfront ⟨hj, hn⟩
    rw [htop, if_neg hne]
    exact ⟨hsize, by split_ifs <;> rfl⟩

theorem slot_ofCount (count n : Nat) : (ofCount count).slot n = .top := by
  simp only [slot, ofCount, Array.getElem?_replicate]
  split <;> rfl

theorem padded_ofCount (count : Nat) : (ofCount count).Padded := by
  intro n hn
  rw [slot_ofCount] at hn
  cases hn

/-! ### Sequences of stores -/

/-- The slots after a store is tried; one that fails leaves them as they are. -/
def attempt (l : Locals) (p : Nat × Value) : Locals :=
  match l.store p.1 p.2 with
  | .ok l' => l'
  | .error _ => l

/-- The slots, empty at first, after some stores are tried. -/
def after (count : Nat) (stores : List (Nat × Value)) : Locals := stores.foldl attempt (ofCount count)

/-- A store succeeds after others. -/
def Succeeds (count : Nat) (earlier : List (Nat × Value)) (index : Nat) (v : Value) : Prop :=
  ∃ l, (after count earlier).store index v = .ok l

/-- A value was stored at an index, and no store that succeeded later has touched a slot that it takes up. -/
def Stands (count : Nat) (stores : List (Nat × Value)) (i : Nat) (v : Value) : Prop :=
  ∃ earlier later, stores = earlier ++ (i, v) :: later ∧ Succeeds count earlier i v ∧
    ∀ between j u rest, later = between ++ (j, u) :: rest → Succeeds count (earlier ++ (i, v) :: between) j u →
      Apart i v j u

variable {count : Nat} {stores : List (Nat × Value)}

theorem after_concat (count : Nat) (stores : List (Nat × Value)) (p : Nat × Value) :
    after count (stores ++ [p]) = (after count stores).attempt p := by
  rw [after, List.foldl_append]
  rfl

theorem not_stands_nil : ¬ Stands count [] i v := by
  rintro ⟨earlier, later, h, -⟩
  simp at h

/-- One more store stands if it succeeds; then only the values apart from it still do. -/
theorem stands_concat : Stands count (stores ++ [(j, u)]) i v ↔
    (i = j ∧ v = u) ∧ Succeeds count stores j u ∨
      Stands count stores i v ∧ (Succeeds count stores j u → Apart i v j u) := by
  constructor
  · rintro ⟨earlier, later, hstores, hstored, hlater⟩
    rcases List.eq_nil_or_concat later with rfl | ⟨later, p, rfl⟩
    · obtain ⟨rfl, hp⟩ := List.append_inj' hstores rfl
      cases hp
      exact .inl ⟨⟨rfl, rfl⟩, hstored⟩
    · rw [List.concat_eq_append, ← List.cons_append, ← List.append_assoc] at hstores
      obtain ⟨rfl, hp⟩ := List.append_inj' hstores rfl
      cases hp
      refine .inr ⟨⟨earlier, later, rfl, hstored, fun between j' u' rest h => ?_⟩, hlater later j u [] ?_⟩
      · exact hlater between j' u' (rest ++ [(j, u)]) (by simp [h])
      · exact List.concat_eq_append
  · rintro (⟨⟨rfl, rfl⟩, hstored⟩ | ⟨⟨earlier, later, rfl, hstored, hlater⟩, hlast⟩)
    · exact ⟨stores, [], rfl, hstored, fun between j u rest h => by simp at h⟩
    · refine ⟨earlier, later ++ [(j, u)], by simp, hstored, fun between j' u' rest h => ?_⟩
      rcases List.eq_nil_or_concat rest with rfl | ⟨rest, p, rfl⟩
      · obtain ⟨rfl, hp⟩ := List.append_inj' h rfl
        cases hp
        exact hlast
      · rw [List.concat_eq_append, ← List.cons_append, ← List.append_assoc] at h
        exact hlater between j' u' rest (List.append_inj' h rfl).1

theorem load_attempt (hu : u ≠ .top ∧ u ≠ .void) : (l.attempt (j, u)).load i = .ok v ↔
    (i = j ∧ v = u) ∧ (∃ l', l.store j u = .ok l') ∨
      l.load i = .ok v ∧ ((∃ l', l.store j u = .ok l') → Apart i v j u) := by
  unfold attempt
  dsimp only
  cases h : l.store j u with
  | error f => simp
  | ok l' => simp [load_store h hu]

theorem Padded.attempt (hl : l.Padded) (p : Nat × Value) : (l.attempt p).Padded := by
  unfold Locals.attempt
  cases h : l.store p.1 p.2 with
  | error f => exact hl
  | ok l' => exact hl.store h

theorem padded_after (count : Nat) (stores : List (Nat × Value)) : (after count stores).Padded := by
  induction stores using List.reverseRecOn with
  | nil => exact padded_ofCount count
  | append_singleton stores p ih =>
    rw [after_concat]
    exact ih.attempt p

/-- A local variable holds the value stored last at its index, if no store has touched a slot of this value since;
otherwise it is not readable. Wide values are followed by a slot without a value at all times. -/
theorem load_iff_last_store (count : Nat) (stores : List (Nat × Value))
    (hvalues : ∀ p ∈ stores, p.2 ≠ .top ∧ p.2 ≠ .void) :
    (∀ i v, (after count stores).load i = .ok v ↔ Stands count stores i v) ∧
      ∀ earlier, earlier <+: stores → (after count earlier).Padded := by
  refine ⟨?_, fun earlier _ => padded_after count earlier⟩
  induction stores using List.reverseRecOn with
  | nil =>
    intro i v
    have hempty : (after count []).slot i = .top := slot_ofCount count i
    rw [load_eq_ok, hempty]
    exact ⟨fun h => absurd h.1.symm h.2.1, fun h => absurd h not_stands_nil⟩
  | append_singleton stores p ih =>
    obtain ⟨j, u⟩ := p
    intro i v
    rw [after_concat, load_attempt (hvalues (j, u) (by simp)), ih (fun p hp => hvalues p (by simp [hp])), stands_concat]
    rfl

/-- An `int` that is stored into the second slot of a `long` is read back, and the `long` is lost; that another
`long` does not fit behind it changes nothing. -/
theorem load_after_second_half :
    Stands 3 [(0, .long 5), (1, .int 3), (2, .long 7)] 1 (.int 3) ∧
      ∀ v, ¬ Stands 3 [(0, .long 5), (1, .int 3), (2, .long 7)] 0 v := by
  have hload := (load_iff_last_store 3 [(0, .long 5), (1, .int 3), (2, .long 7)] (by simp)).1
  refine ⟨(hload 1 (.int 3)).1 rfl, fun v hv => ?_⟩
  have hlost := (hload 0 v).2 hv
  cases hlost

end Locals

end Jvm
