import Jvm.Regex.Search
import Mathlib.Data.List.DropRight

/-!
# Splitting a text at matches

`split_reconstructs`: a split cuts a text into what stands between its matches and leaves out the empty pieces at
the end; put together again with the matches, the pieces are the text. All that is needed of the matches is that they
stand one behind the other (`InOrder`), and those that an automaton finds do (`Automaton.inOrder_spans`): a match
begins where one of the threads of the search began and ends where the search has come to.
-/

namespace Jvm

namespace Text

/-- The spans lie one behind the other in a text of `n` characters. -/
structure InOrder (n : Nat) (spans : List (Nat × Nat)) : Prop where
  within : ∀ p ∈ spans, p.1 ≤ p.2 ∧ p.2 ≤ n
  apart : spans.Pairwise fun p q => p.2 ≤ q.1

/-- What lies between spans, from place `start` on. -/
def gaps (start n : Nat) (spans : List (Nat × Nat)) : List (Nat × Nat) :=
  (start :: spans.map Prod.snd).zip (spans.map Prod.fst ++ [n])

def slice (text : List Char) (p : Nat × Nat) : List Char := text.extract p.1 p.2

/-- Pieces and separators by turns. -/
def weave (pieces separators : List (List Char)) : List Char :=
  (List.zipWith (· ++ ·) pieces (separators ++ [[]])).flatten

/-- The spans that count: all but those without characters at the front. -/
def counted (spans : List (Nat × Nat)) : List (Nat × Nat) := spans.filter (· ≠ (0, 0))

/-- The parts that a text is split into at spans: what lies between them, without the empty pieces at the end. -/
structure Splits (text : List Char) (spans : List (Nat × Nat)) (parts : List (List Char)) : Prop where
  inRange : ∀ p ∈ gaps 0 text.length spans, p.1 ≤ p.2 ∧ p.2 ≤ text.length
  whole : spans = [] → parts = [text]
  padded : ∃ empty, parts ++ List.replicate empty [] = (gaps 0 text.length spans).map (slice text) ∧
    weave (parts ++ List.replicate empty []) (spans.map (slice text)) = text
  last : spans ≠ [] → ∀ part ∈ parts.getLast?, part ≠ []

section

variable {n start : Nat} {text : List Char} {spans : List (Nat × Nat)} {p : Nat × Nat}

theorem InOrder.tail (h : InOrder n (p :: spans)) : InOrder n spans :=
  ⟨fun q hq => h.within q (List.mem_cons_of_mem _ hq), h.apart.of_cons⟩

theorem InOrder.behind (h : InOrder n (p :: spans)) : ∀ q ∈ spans, p.2 ≤ q.1 :=
  fun _ hq => List.rel_of_pairwise_cons h.apart hq

theorem InOrder.counted (h : InOrder n spans) : InOrder n (counted spans) :=
  ⟨fun q hq => h.within q (List.mem_of_mem_filter hq), h.apart.filter _⟩

theorem gaps_cons : gaps start n (p :: spans) = (start, p.1) :: gaps p.2 n spans := rfl

/-- Nothing is cut out from beyond the text, or from back to front. -/
theorem gaps_inRange (h : InOrder n spans) (hstart : start ≤ n) (hbehind : ∀ p ∈ spans, start ≤ p.1) :
    ∀ g ∈ gaps start n spans, g.1 ≤ g.2 ∧ g.2 ≤ n := by
  induction spans generalizing start with
  | nil => simpa [gaps] using hstart
  | cons p spans ih =>
    have hp := h.within p List.mem_cons_self
    have hfirst := hbehind p List.mem_cons_self
    rw [gaps_cons, List.forall_mem_cons]
    exact ⟨⟨hfirst, by omega⟩, ih h.tail hp.2 h.behind⟩

theorem slice_length (start : Nat) (text : List Char) : slice text (start, text.length) = text.drop start := by
  rw [slice, List.extract_eq_take_drop, ← List.length_drop, List.take_length]

theorem slice_append_drop (h : p.1 ≤ p.2) : slice text p ++ text.drop p.2 = text.drop p.1 := by
  have hdrop : text.drop p.2 = (text.drop p.1).drop (p.2 - p.1) := by
    rw [List.drop_drop, Nat.add_sub_cancel' h]
  rw [hdrop, slice, List.extract_eq_take_drop, List.take_append_drop]

theorem piecesBetween_eq (h : InOrder text.length spans) (hbehind : ∀ p ∈ spans, start ≤ p.1) :
    piecesBetween start (text.drop start) spans = (gaps start text.length spans).map (slice text) := by
  induction spans generalizing start with
  | nil => exact congrArg (· :: []) (slice_length start text).symm
  | cons p spans ih =>
    have hp := h.within p List.mem_cons_self
    have hfirst := hbehind p List.mem_cons_self
    have hdrop : (text.drop start).drop (p.2 - start) = text.drop p.2 := by
      rw [List.drop_drop, Nat.add_sub_cancel' (hfirst.trans hp.1)]
    rw [piecesBetween, gaps_cons, List.map_cons, hdrop, ih h.tail h.behind]
    rfl

/-- Between the spans and on them lies the whole text. -/
theorem weave_gaps (h : InOrder text.length spans) (hbehind : ∀ p ∈ spans, start ≤ p.1) :
    weave ((gaps start text.length spans).map (slice text)) (spans.map (slice text)) = text.drop start := by
  induction spans generalizing start with
  | nil =>
    rw [← slice_length]
    simp [weave, gaps]
  | cons p spans ih =>
    have hp := h.within p List.mem_cons_self
    have hfirst := hbehind p List.mem_cons_self
    have htail := ih h.tail h.behind
    have hturn : weave (slice text (start, p.1) :: (gaps p.2 text.length spans).map (slice text))
        (slice text p :: spans.map (slice text)) = slice text (start, p.1) ++ slice text p ++
          weave ((gaps p.2 text.length spans).map (slice text)) (spans.map (slice text)) := rfl
    rw [gaps_cons, List.map_cons, List.map_cons, hturn, htail, List.append_assoc, slice_append_drop hp.1]
    exact slice_append_drop hfirst

/-- A span that ends at the front is one without characters. -/
theorem filter_front (h : InOrder n spans) : spans.filter (·.2 != 0) = counted spans := by
  refine List.filter_congr fun p hp => ?_
  have hle := (h.within p hp).1
  obtain ⟨s, e⟩ := p
  have hzero : e = 0 ↔ (s, e) = (0, 0) := by
    rw [Prod.mk.injEq]
    dsimp only at hle
    omega
  rw [Bool.eq_iff_iff, bne_iff_ne, decide_eq_true_iff]
  exact not_congr hzero

theorem exists_dropEmptyEnd (parts : List (List Char)) :
    ∃ empty, dropEmptyEnd parts ++ List.replicate empty [] = parts := by
  refine ⟨(parts.rtakeWhile (·.isEmpty)).length, ?_⟩
  have hempty : parts.rtakeWhile (·.isEmpty) = List.replicate (parts.rtakeWhile (·.isEmpty)).length [] :=
    List.eq_replicate_iff.2 ⟨rfl, fun part hpart => List.isEmpty_iff.1 (List.mem_rtakeWhile_imp hpart)⟩
  rw [← hempty]
  exact List.rdropWhile_append_rtakeWhile

theorem last_dropEmptyEnd (parts : List (List Char)) : ∀ part ∈ (dropEmptyEnd parts).getLast?, part ≠ [] := by
  intro part hpart hempty
  obtain ⟨hne, hlast⟩ := List.mem_getLast?_eq_getLast hpart
  have hkept : ¬ part.isEmpty := by
    rw [hlast]
    exact List.rdropWhile_last_not (fun part : List Char => part.isEmpty) parts hne
  exact hkept (List.isEmpty_iff.2 hempty)

theorem splitAt_of_ne_nil (h : spans.filter (·.2 != 0) ≠ []) :
    splitAt text spans = dropEmptyEnd (piecesBetween 0 text (spans.filter (·.2 != 0))) := by
  rw [splitAt]
  split
  · contradiction
  · rfl

theorem splits_splitAt (h : InOrder text.length spans) : Splits text (counted spans) (splitAt text spans) := by
  have hfront : ∀ p ∈ counted spans, 0 ≤ p.1 := fun _ _ => Nat.zero_le _
  have hwhole : counted spans = [] → splitAt text spans = [text] := by
    intro hnone
    rw [splitAt, filter_front h, hnone]
  have hsplit : counted spans ≠ [] →
      splitAt text spans = dropEmptyEnd ((gaps 0 text.length (counted spans)).map (slice text)) := by
    intro hsome
    rw [← filter_front h] at hsome
    rw [splitAt_of_ne_nil hsome, filter_front h, ← piecesBetween_eq h.counted hfront, List.drop_zero]
  refine ⟨gaps_inRange h.counted (Nat.zero_le _) hfront, hwhole, ?_, fun hsome part hpart => ?_⟩
  · obtain ⟨empty, hempty⟩ : ∃ empty, splitAt text spans ++ List.replicate empty [] =
        (gaps 0 text.length (counted spans)).map (slice text) := by
      by_cases hnone : counted spans = []
      · refine ⟨0, ?_⟩
        rw [hwhole hnone, hnone]
        exact congrArg (· :: []) (slice_length 0 text).symm
      · rw [hsplit hnone]
        exact exists_dropEmptyEnd _
    exact ⟨empty, hempty, by rw [hempty, weave_gaps h.counted hfront, List.drop_zero]⟩
  · rw [hsplit hsome] at hpart
    exact last_dropEmptyEnd _ part hpart

end

end Text

namespace Regex

/-- The threads began between two places. -/
def Began (first last : Nat) (threads : Array Thread) : Prop := ∀ t ∈ threads, first ≤ t.origin ∧ t.origin ≤ last

/-- A match, if there is one, begins no sooner than at `first` and does not end behind `last`. -/
def Within (first last : Nat) (found : Option (Nat × Nat)) : Prop :=
  ∀ p ∈ found, first ≤ p.1 ∧ p.1 ≤ p.2 ∧ p.2 ≤ last

theorem Began.push {first last : Nat} {threads : Array Thread} (h : Began first last threads) {t : Thread}
    (ht : first ≤ t.origin ∧ t.origin ≤ last) : Began first last (threads.push t) := by
  intro u hu
  rcases Array.mem_push.1 hu with hu | rfl
  · exact h u hu
  · exact ht

theorem Began.mono {first last last' : Nat} {threads : Array Thread} (h : Began first last threads)
    (hle : last ≤ last') : Began first last' threads :=
  fun t ht => ⟨(h t ht).1, (h t ht).2.trans hle⟩

namespace Automaton

variable {m : Automaton} {text : Array Char} {first last i origin steps count start : Nat} {seen : Array Nat}
  {threads : Array Thread} {found : Option (Nat × Nat)} {front : Front}

/-- The states that are reached at a place begin there or where the thread began that leads to them. -/
theorem began_reach (fuel : Nat) (todo : List Nat) (horigin : first ≤ origin ∧ origin ≤ last)
    (h : Began first last threads) : Began first last (m.reach text i origin fuel todo seen threads).threads := by
  fun_induction reach m text i origin fuel todo seen threads with
  | case1 => exact h
  | case2 => exact h
  | case3 _ _ _ _ _ _ ih => exact ih h
  | case4 _ _ _ _ _ _ _ _ _ ih => exact ih h
  | case5 _ _ _ _ _ _ _ _ _ _ _ _ ih => exact ih h
  | case6 _ _ _ _ _ _ _ _ _ _ _ ih => exact ih (h.push horigin)
  | case7 _ _ _ _ _ _ _ _ ih => exact ih h

/-- A match that is found where threads read began where one of them did, and ends where they are. -/
theorem advance_within (todo : List Thread) (htodo : ∀ t ∈ todo, first ≤ t.origin ∧ t.origin ≤ i) (hi : i ≤ last)
    (hfound : Within first last found) (hfront : Began first i front.threads) :
    Within first last (m.advance steps text i todo found front).1 ∧
      Began first i (m.advance steps text i todo found front).2.threads := by
  fun_induction advance m steps text i todo found front with
  | case1 => exact ⟨hfound, hfront⟩
  | case2 t rest found front haccept =>
    refine ⟨fun p hp => ?_, hfront⟩
    obtain ⟨hfirst, horigin⟩ := htodo t List.mem_cons_self
    cases hp
    exact ⟨hfirst, horigin, hi⟩
  | case3 t rest found front set next hread front' ih =>
    refine ih (fun u hu => htodo u (List.mem_cons_of_mem _ hu)) hfound ?_
    dsimp only [front']
    split
    · exact began_reach _ _ (htodo t List.mem_cons_self) hfront
    · exact hfront
  | case4 t rest found front _ _ ih => exact ih (fun u hu => htodo u (List.mem_cons_of_mem _ hu)) hfound hfront

theorem searchFrom_within (hi : first ≤ i) (hcount : i + count ≤ last + 1) (hfound : Within first last found)
    (hfront : Began first i front.threads) : Within first last (m.searchFrom steps text count i found front) := by
  fun_induction searchFrom m steps text count i found front with
  | case1 => exact hfound
  | case2 => exact hfound
  | case3 count i found front front' hgoes threads found' front'' hadvance ih =>
    have hbegan : Began first i front'.threads := by
      dsimp only [front']
      split
      · exact began_reach _ _ ⟨hi, le_rfl⟩ hfront
      · exact hfront
    have hnone : Began first i (⟨front'.seen, #[]⟩ : Front).threads := by simp [Began]
    have hthreads : ∀ t ∈ threads, first ≤ t.origin ∧ t.origin ≤ i := fun t ht => hbegan t (Array.mem_toList_iff.1 ht)
    have hstep : Within first last (m.advance steps text i threads found ⟨front'.seen, #[]⟩).1 ∧
        Began first i (m.advance steps text i threads found ⟨front'.seen, #[]⟩).2.threads :=
      advance_within threads hthreads (by omega) hfound hnone
    rw [hadvance] at hstep
    exact ih (by omega) (by omega) hstep.1 (hstep.2.mono (Nat.le_succ i))

theorem find?_within (hstart : start ≤ text.size + 1) : Within start text.size (m.find? text start) :=
  searchFrom_within le_rfl (by omega) nofun (by simp [Began])

/-- What is found from `start` on when the match before ended at `last`. -/
theorem spansFrom_inOrder (fuel : Nat) (last : Option Nat) (hstart : start ≤ text.size) :
    Text.InOrder text.size (m.spansFrom text fuel start last) ∧
      ∀ p ∈ m.spansFrom text fuel start last, start ≤ p.1 := by
  fun_induction spansFrom m text fuel start last with
  | case1 => exact ⟨⟨nofun, .nil⟩, nofun⟩
  | case2 fuel start last found s e hfound ih =>
    have hwithin : Within start text.size found := by
      have hfirst := find?_within (m := m) (hstart.trans (Nat.le_succ _))
      dsimp only [found]
      split
      · rename_i s e hfind
        split
        · intro p hp
          have hnext := find?_within (Nat.succ_le_succ hstart) p hp
          exact ⟨(Nat.le_succ start).trans hnext.1, hnext.2⟩
        · rwa [hfind] at hfirst
      · nofun
    obtain ⟨hstart', hspan, hend⟩ := hwithin (s, e) hfound
    obtain ⟨hinOrder, hbehind⟩ := ih hend
    refine ⟨⟨List.forall_mem_cons.2 ⟨⟨hspan, hend⟩, hinOrder.within⟩, .cons hbehind hinOrder.apart⟩, ?_⟩
    exact List.forall_mem_cons.2 ⟨hstart', fun p hp => hstart'.trans (hspan.trans (hbehind p hp))⟩
  | case3 => exact ⟨⟨nofun, .nil⟩, nofun⟩

theorem inOrder_spans (m : Automaton) (text : Array Char) : Text.InOrder text.size (m.spans text) :=
  (spansFrom_inOrder _ _ (Nat.zero_le _)).1

end Automaton

end Regex

namespace Text

/-- A split at matches that stand one behind the other cuts out what is between them and can be undone, and the
matches of a pattern stand so. -/
theorem split_reconstructs :
    (∀ (text : List Char) (spans : List (Nat × Nat)), InOrder text.length spans →
      Splits text (counted spans) (splitAt text spans)) ∧
    ∀ (text : String) (m : Regex.Automaton),
      Splits text.toList (counted (m.spans text.toList.toArray)) ((splitOn text m).map String.toList) := by
  refine ⟨fun text spans h => splits_splitAt h, fun text m => ?_⟩
  have hlists : (splitOn text m).map String.toList = splitAt text.toList (m.spans text.toList.toArray) := by
    simp [splitOn, Function.comp_def]
  rw [hlists]
  exact splits_splitAt (Regex.Automaton.inOrder_spans m text.toList.toArray)

/-- With an empty match in front, another one between two letters and two separators at the end, three parts and two
empty pieces. -/
theorem split_reconstructs_commas : InOrder 6 [(0, 0), (1, 2), (3, 3), (4, 5), (5, 6)] ∧
    splitAt ['a', ',', 'b', 'c', ',', ','] [(0, 0), (1, 2), (3, 3), (4, 5), (5, 6)] = [['a'], ['b'], ['c']] ∧
    ∃ empty, [['a'], ['b'], ['c']] ++ List.replicate empty [] = [['a'], ['b'], ['c'], [], []] ∧
      weave ([['a'], ['b'], ['c']] ++ List.replicate empty []) [[','], [], [','], [',']] =
        ['a', ',', 'b', 'c', ',', ','] := by
  have horder : InOrder 6 [(0, 0), (1, 2), (3, 3), (4, 5), (5, 6)] := ⟨by decide, by decide⟩
  exact ⟨horder, rfl, (split_reconstructs.1 ['a', ',', 'b', 'c', ',', ','] _ horder).padded⟩

end Text

end Jvm
