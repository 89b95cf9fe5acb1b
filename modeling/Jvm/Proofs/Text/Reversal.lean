import Mathlib.Data.List.Chain
import Jvm.Library.Builders
import Jvm.Proofs.Machine.Sparing
import Jvm.Proofs.Text.Utf16

/-!
# Text backwards

To put a text backwards, its units are reversed and the pairs, which then stand backwards, are mended from the left.
This reverses the order of the pieces of the text, which are surrogate pairs and single units
(`reversed_of_splitsInto`). A low unit in front of a high one is therefore met only inside of a piece: at the seam of
two pieces it would have come from a pair that was cut, and none is (`mendPairs_append`).
-/

namespace Jvm

namespace Units

/-- A surrogate pair, or a single unit. -/
inductive IsPiece : Units → Prop
  | pair {high low : UInt16} : isHigh high → isLow low → IsPiece [high, low]
  | single (u : UInt16) : IsPiece [u]

/-- There is no surrogate pair across the seam of two texts. -/
def Apart (us vs : Units) : Prop := ∀ u ∈ us.getLast?, ∀ v ∈ vs.head?, ¬ (isHigh u ∧ isLow v)

/-- A text is cut into pieces, and no surrogate pair is cut. -/
structure SplitsInto (us : Units) (ps : List Units) : Prop where
  joined : ps.flatten = us
  pieces : ∀ p ∈ ps, IsPiece p
  apart : ps.IsChain Apart

variable {us vs p q : Units} {ps : List Units} {u v : UInt16}

theorem apart_of_isLow (h : isLow v) : Apart [u, v] us := by
  rintro w hw x - ⟨hhigh, -⟩
  obtain rfl : v = w := by simpa using hw
  rw [isHigh_eq_false h] at hhigh
  cases hhigh

/-! ### The pieces of a text -/

theorem IsPiece.ne_nil (h : IsPiece p) : p ≠ [] := by
  cases h <;> nofun

theorem flatten_pieces (us : Units) : us.pieces.flatten = us := by
  fun_induction pieces us with
  | case1 => rfl
  | case2 u => rfl
  | case3 u v rest hpair ih => simp [ih]
  | case4 u v rest hpair ih => simp [ih]

theorem isPiece_of_mem_pieces (us : Units) : ∀ p ∈ us.pieces, IsPiece p := by
  fun_induction pieces us with
  | case1 => nofun
  | case2 u => simpa using IsPiece.single u
  | case3 u v rest hpair ih =>
    rw [Bool.and_eq_true] at hpair
    simpa using ⟨IsPiece.pair hpair.1 hpair.2, ih⟩
  | case4 u v rest hpair ih => simpa using ⟨IsPiece.single u, ih⟩

/-- The first piece begins the text. -/
theorem head?_of_mem_head? (hps : ∀ p ∈ ps, IsPiece p) (hp : p ∈ ps.head?) : p.head? = ps.flatten.head? := by
  cases ps with
  | nil => cases hp
  | cons q qs =>
    cases hp
    cases p with
    | nil => exact absurd rfl (hps [] (by simp)).ne_nil
    | cons => rfl

theorem splitsInto_pieces (us : Units) : us.SplitsInto us.pieces := by
  refine ⟨flatten_pieces us, isPiece_of_mem_pieces us, ?_⟩
  fun_induction pieces us with
  | case1 => exact .nil
  | case2 u => exact .singleton _
  | case3 u v rest hpair ih =>
    rw [Bool.and_eq_true] at hpair
    exact List.isChain_cons.2 ⟨fun q _ => apart_of_isLow hpair.2, ih⟩
  | case4 u v rest hpair ih =>
    refine List.isChain_cons.2 ⟨fun q hq => ?_, ih⟩
    have hhead : q.head? = some v := by
      rw [head?_of_mem_head? (isPiece_of_mem_pieces _) hq, flatten_pieces]
      rfl
    rintro w hw x hx ⟨hhigh, hlow⟩
    obtain rfl : u = w := by simpa using hw
    cases hhead.symm.trans hx
    exact hpair (by rw [hhigh, hlow]; rfl)

/-! ### Mending pairs -/

/-- Pairs are mended on both sides of a seam unless one lies across it. -/
theorem mendPairs_append (h : ∀ u ∈ us.getLast?, ∀ v ∈ vs.head?, ¬ (isLow u ∧ isHigh v)) :
    mendPairs (us ++ vs) = mendPairs us ++ mendPairs vs := by
  fun_induction mendPairs us with
  | case1 => rfl
  | case2 u =>
    cases vs with
    | nil => rfl
    | cons v vs =>
      have hseam : ¬ (isLow u && isHigh v) := by simpa using h u rfl v rfl
      rw [List.cons_append, List.nil_append, mendPairs, if_neg hseam]
      rfl
  | case3 u v rest hback ih =>
    rw [List.cons_append, List.cons_append, mendPairs, if_pos hback, ih fun w hw => ?_]
    · rfl
    · refine h w ?_
      rw [Option.mem_def] at hw
      simp [List.getLast?_cons, hw]
  | case4 u v rest hback ih =>
    rw [List.cons_append, List.cons_append, mendPairs, if_neg hback, ← List.cons_append, ih fun w hw => ?_]
    · rfl
    · refine h w ?_
      rwa [List.getLast?_cons_cons]

theorem mendPairs_reverse_piece (h : IsPiece p) : mendPairs p.reverse = p := by
  cases h with
  | pair hhigh hlow => simp [mendPairs, hhigh, hlow]
  | single u => rfl

/-- A text backwards is the row of its pieces backwards. -/
theorem reversed_of_splitsInto (h : us.SplitsInto ps) : us.reversed = ps.reverse.flatten := by
  obtain ⟨rfl, hpieces, hapart⟩ := h
  unfold reversed
  induction ps with
  | nil => rfl
  | cons p ps ih =>
    obtain ⟨hp, hps⟩ := List.forall_mem_cons.1 hpieces
    obtain ⟨hseam, hchain⟩ := List.isChain_cons.1 hapart
    rw [List.flatten_cons, List.reverse_append, mendPairs_append, ih hps hchain, mendPairs_reverse_piece hp]
    · simp
    · rintro u hu v hv ⟨hlow, hhigh⟩
      rw [List.getLast?_reverse] at hu
      rw [List.head?_reverse] at hv
      cases ps with
      | nil => cases hu
      | cons q qs => exact hseam q rfl v hv u ((head?_of_mem_head? hps rfl).trans hu) ⟨hhigh, hlow⟩

/-! ### Well-formed texts -/

theorem isHigh_eq_false_of_wellFormed (h : us.wellFormed) : ∀ p ∈ us.pieces, ∀ u ∈ p.getLast?, isHigh u = false := by
  fun_induction pieces us with
  | case1 => nofun
  | case2 u =>
    simp only [wellFormed, Bool.and_eq_true, Bool.not_eq_true'] at h
    simpa using h.1
  | case3 u v rest hpair ih =>
    rw [Bool.and_eq_true] at hpair
    simp only [wellFormed, if_pos hpair.1, Bool.and_eq_true] at h
    simpa [isHigh_eq_false hpair.2] using ih h.2
  | case4 u v rest hpair ih =>
    have hsingle : isHigh u = false := by
      by_contra hhigh
      simp_all [wellFormed]
    rw [wellFormed, if_neg (by simp [hsingle]), Bool.and_eq_true] at h
    simpa [hsingle] using ih h.2

/-- Where no surrogate is unpaired, the pieces may stand in any order. -/
theorem splitsInto_reverse (h : us.wellFormed) : SplitsInto us.pieces.reverse.flatten us.pieces.reverse := by
  refine ⟨rfl, fun p hp => isPiece_of_mem_pieces us p (List.mem_reverse.1 hp), ?_⟩
  refine List.Pairwise.isChain (List.pairwise_of_forall_mem_list fun p hp q hq u hu v hv hcut => ?_)
  rw [isHigh_eq_false_of_wellFormed h p (List.mem_reverse.1 hp) u hu] at hcut
  exact absurd hcut.1 nofun

theorem reversed_reversed (h : us.wellFormed) : us.reversed.reversed = us := by
  rw [reversed_of_splitsInto (splitsInto_pieces us), reversed_of_splitsInto (splitsInto_reverse h),
    List.reverse_reverse, flatten_pieces]

end Units

namespace Library

open Jvm.Units

/-- The units of a builder are changed in place. -/
theorem editBuilder_apply {c : Call} {s : State} {id : Nat} {text : Array UInt16} (hthis : c.receiver = some (.ref id))
    (htext : s.heap.contents? id = some (.builder text)) (f : Array UInt16 → Array UInt16) (w : World) :
    editBuilder c f w s = .ok (.ref id) { s with heap := s.heap.setPayload id (.builder (f text)) } := by
  rw [editBuilder, Exec.bind_apply, Call.this_eq hthis, Exec.ofExcept_apply]
  dsimp only
  rw [Exec.bind_apply, Exec.modify_apply htext rfl]
  rfl

end Library

open Jvm.Units in
/-- A text is a row of surrogate pairs and single units, none of them cut out of a pair, and such pieces in the opposite
order are the text backwards. Where no surrogate is unpaired, the text backwards is the text when it is put backwards
again. The native method changes a builder in this way, and nothing else. -/
theorem reversed_by_pieces (us : Units) :
    us.SplitsInto us.pieces ∧ (∀ ps, us.SplitsInto ps → us.reversed = ps.reverse.flatten) ∧
    (us.wellFormed → us.reversed.reversed = us) ∧
    ∀ (c : Call) (w : World) (s : State) (id : Nat), c.receiver = some (.ref id) →
      s.heap.contents? id = some (.builder us.toArray) →
      Library.reverse c w s =
        .ok (.ref id) { s with heap := s.heap.setPayload id (.builder us.pieces.reverse.flatten.toArray) } := by
  refine ⟨splitsInto_pieces us, fun ps => reversed_of_splitsInto, reversed_reversed, fun c w s id hthis htext => ?_⟩
  rw [Library.reverse, Library.editBuilder_apply hthis htext, List.toList_toArray,
    reversed_of_splitsInto (splitsInto_pieces us)]

/-- A state with one object, a builder of a text. -/
def builderState (us : Units) : State :=
  { State.start .standard with
    heap := ((Heap.empty 9).push "java/lang/StringBuilder" (some (.builder us.toArray))).2 }

def reversal : Call :=
  .onObject .virtual ⟨"java/lang/StringBuilder", "reverse", "()Ljava/lang/StringBuilder;"⟩ (.ref 0) []

open Jvm.Units in
/-- Of two high units in front of a low one, the first is on its own and comes last. -/
theorem reversed_by_pieces_face :
    SplitsInto [0xd83d, 0xd83d, 0xde00] [[0xd83d], [0xd83d, 0xde00]] ∧
    Library.reverse reversal ⟨.empty, .standard, none, [], .still 0⟩ (builderState [0xd83d, 0xd83d, 0xde00]) =
      .ok (.ref 0) (builderState [0xd83d, 0xde00, 0xd83d]) ∧
    wellFormed [0x61, 0xd83d, 0xde00] ∧ reversed (reversed [0x61, 0xd83d, 0xde00]) = [0x61, 0xd83d, 0xde00] := by
  obtain ⟨hpieces, -, -, hrun⟩ := reversed_by_pieces [0xd83d, 0xd83d, 0xde00]
  have hwell : wellFormed [0x61, 0xd83d, 0xde00] := by decide
  exact ⟨hpieces, hrun reversal ⟨.empty, .standard, none, [], .still 0⟩ (builderState _) 0 rfl rfl, hwell,
    (reversed_by_pieces [0x61, 0xd83d, 0xde00]).2.2.1 hwell⟩

end Jvm
