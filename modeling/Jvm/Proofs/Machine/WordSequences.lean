import Jvm.Proofs.Flow.Transfer
import Jvm.Proofs.Machine.StackLimits

/-!
# What the stack instructions do to words

A stack is read as the sequence of its words (`Words.words`), in which the two words of a wide entry belong
together. The stack instructions count these words: each succeeds just if there are enough of them and no entry
is cut, and it moves them whatever entries they belong to (`shuffles_move_words`). Since the words of a stack
determine it, this says all that they do.

An instruction has several forms, one for each way in which the words that it moves may belong to entries
(`Words.Form`). The analysis and the machine both carry out exactly these forms.
-/

namespace Jvm

namespace Words

variable {α : Type} [HasWidth α]

/-! ### The words of a stack -/

/-- A word, by the entry that it belongs to. -/
inductive Word (α : Type) where
  /-- The word of an entry that is nearest to the top. -/
  | upper (a : α)
  /-- The other word of an entry that has two. -/
  | lower (a : α)

def ofEntry (a : α) : List (Word α) :=
  match width a with
  | .single => [.upper a]
  | .double => [.upper a, .lower a]

/-- The words of a stack, top first. -/
def words (stack : List α) : List (Word α) := stack.flatMap ofEntry

/-- The stack has `n` words, and no entry has words both among the `n` on top and below them. -/
def Cuts (stack : List α) (n : Nat) : Prop :=
  n ≤ (words stack).length ∧ ∀ a, (words stack)[n]? ≠ some (.lower a)

variable {name : String} {n top under : Nat} {a b : α} {stack result taken rest σ τ : List α}

@[simp] theorem words_nil : words ([] : List α) = [] := rfl

@[simp] theorem words_cons (a : α) (stack : List α) : words (a :: stack) = ofEntry a ++ words stack := List.flatMap_cons

@[simp] theorem words_append (σ τ : List α) : words (σ ++ τ) = words σ ++ words τ := List.flatMap_append

theorem ofEntry_eq (a : α) : ofEntry a = [.upper a] ∧ width a = .single ∨
    ofEntry a = [.upper a, .lower a] ∧ width a = .double := by
  unfold ofEntry
  cases width a with
  | single => exact .inl ⟨rfl, rfl⟩
  | double => exact .inr ⟨rfl, rfl⟩

@[simp] theorem length_ofEntry (a : α) : (ofEntry a).length = (width a).words := by
  rcases ofEntry_eq a with ⟨h, hw⟩ | ⟨h, hw⟩ <;> rw [h, hw] <;> rfl

/-- An entry begins with its upper word. -/
theorem exists_ofEntry (a : α) : ∃ below, ofEntry a = .upper a :: below := by
  rcases ofEntry_eq a with ⟨h, -⟩ | ⟨h, -⟩ <;> exact ⟨_, h⟩

theorem words_pos (a : α) : 1 ≤ (width a).words := by cases width a <;> decide

/-- The words of a stack determine its entries. -/
theorem words_injective (h : words σ = words τ) : σ = τ := by
  induction σ generalizing τ with
  | nil =>
    cases τ with
    | nil => rfl
    | cons b τ =>
      obtain ⟨below, hb⟩ := exists_ofEntry b
      rw [words_cons, hb] at h
      cases h
  | cons a σ ih =>
    obtain ⟨below, ha⟩ := exists_ofEntry a
    cases τ with
    | nil =>
      rw [words_cons, ha] at h
      cases h
    | cons b τ =>
      obtain ⟨below', hb⟩ := exists_ofEntry b
      have hhead := h
      rw [words_cons, words_cons, ha, hb] at hhead
      injection hhead with hab
      injection hab with hab
      subst hab
      rw [words_cons, words_cons] at h
      rw [ih (List.append_cancel_left h)]

/-! ### Taking words off a stack -/

/-- Taking words splits the stack into the entries that have just these words and the rest. -/
theorem takeWords_eq_ok : takeWords name n stack = .ok (taken, rest) ↔
    stack = taken ++ rest ∧ (words taken).length = n := by
  constructor
  · intro h
    refine ⟨append_of_takeWords h, ?_⟩
    induction stack generalizing n taken rest with
    | nil => cases n <;> cases h; rfl
    | cons a below ih =>
      cases n with
      | zero => cases h; rfl
      | succ n =>
        rw [takeWords] at h
        split at h
        · cases h
        split at h
        · rename_i hwords _ _ _ htaken
          cases h
          rw [words_cons, List.length_append, length_ofEntry, ih htaken]
          omega
        · cases h
  · rintro ⟨rfl, rfl⟩
    induction taken with
    | nil => cases rest <;> rfl
    | cons a taken ih =>
      have hpos := words_pos a
      obtain ⟨n, hn⟩ : ∃ n, (width a).words + (words taken).length = n + 1 := ⟨_, (Nat.sub_add_cancel (by omega)).symm⟩
      have hrest : n + 1 - (width a).words = (words taken).length := by omega
      rw [words_cons, List.length_append, length_ofEntry, hn, List.cons_append, takeWords, if_neg (by omega), hrest, ih]

/-- Where a stack can be cut, some entries have the words above. -/
theorem cuts_iff : Cuts stack n ↔ ∃ taken rest, stack = taken ++ rest ∧ (words taken).length = n := by
  constructor
  · rintro ⟨hlength, hlower⟩
    induction stack generalizing n with
    | nil => exact ⟨[], [], rfl, (Nat.le_zero.1 hlength).symm⟩
    | cons a below ih =>
      rw [words_cons, List.length_append, length_ofEntry] at hlength
      by_cases hn : (width a).words ≤ n
      · obtain ⟨taken, rest, rfl, htaken⟩ := ih (n := n - (width a).words) (by omega) fun b hb => hlower b (by
          rw [words_cons, List.getElem?_append_right (by simpa using hn), length_ofEntry, hb])
        exact ⟨a :: taken, rest, rfl, by rw [words_cons, List.length_append, length_ofEntry, htaken]; omega⟩
      · -- only a wide entry has a boundary inside, and that would be cut
        rcases ofEntry_eq a with ⟨-, hw⟩ | ⟨ha, hw⟩
        · rw [hw] at hn
          exact ⟨[], a :: below, rfl, by rw [words_nil, List.length_nil]; change ¬ 1 ≤ n at hn; omega⟩
        · rw [hw] at hn
          change ¬ 2 ≤ n at hn
          cases n with
          | zero => exact ⟨[], a :: below, rfl, rfl⟩
          | succ n =>
            obtain rfl : n = 0 := by omega
            exact absurd (by rw [words_cons, ha]; rfl) (hlower a)
  · rintro ⟨taken, rest, rfl, rfl⟩
    refine ⟨by rw [words_append, List.length_append]; omega, fun a ha => ?_⟩
    rw [words_append, List.getElem?_append_right (Nat.le_refl _), Nat.sub_self] at ha
    cases rest with
    | nil => cases ha
    | cons b rest =>
      obtain ⟨below, hb⟩ := exists_ofEntry b
      rw [words_cons, hb] at ha
      cases ha

theorem exists_takeWords : (∃ r, takeWords name n stack = .ok r) ↔ Cuts stack n := by
  rw [cuts_iff]
  constructor
  · rintro ⟨⟨taken, rest⟩, h⟩
    exact ⟨taken, rest, takeWords_eq_ok.1 h⟩
  · rintro ⟨taken, rest, h⟩
    exact ⟨(taken, rest), takeWords_eq_ok.2 h⟩

/-- The entries that are taken have the words on top, and those that are left the others. -/
theorem words_takeWords : takeWords name n stack = .ok (taken, rest) ↔
    Cuts stack n ∧ words taken = (words stack).take n ∧ words rest = (words stack).drop n := by
  rw [takeWords_eq_ok]
  constructor
  · rintro ⟨rfl, rfl⟩
    exact ⟨cuts_iff.2 ⟨taken, rest, rfl, rfl⟩, by rw [words_append, List.take_left],
      by rw [words_append, List.drop_left]⟩
  · rintro ⟨⟨hlength, -⟩, htaken, hrest⟩
    refine ⟨words_injective ?_, by rw [htaken, List.length_take_of_le hlength]⟩
    rw [words_append, htaken, hrest, List.take_append_drop]

/-! ### Copies and exchanges -/

theorem dupWords_eq_ok : dupWords name top under stack = .ok result ↔ ∃ copied skipped rest,
    stack = copied ++ (skipped ++ rest) ∧ (words copied).length = top ∧ (words skipped).length = under ∧
      result = copied ++ skipped ++ copied ++ rest := by
  unfold dupWords
  constructor
  · intro h
    split at h
    · cases h
    rename_i copied below hcopied
    split at h
    · cases h
    rename_i skipped rest hskipped
    cases h
    obtain ⟨rfl, htop⟩ := takeWords_eq_ok.1 hcopied
    obtain ⟨rfl, hunder⟩ := takeWords_eq_ok.1 hskipped
    exact ⟨copied, skipped, rest, rfl, htop, hunder, rfl⟩
  · rintro ⟨copied, skipped, rest, rfl, htop, hunder, rfl⟩
    rw [takeWords_eq_ok.2 ⟨rfl, htop⟩]
    dsimp only
    rw [takeWords_eq_ok.2 ⟨rfl, hunder⟩]

theorem exists_dupWords : (∃ result, dupWords name top under stack = .ok result) ↔
    Cuts stack top ∧ Cuts stack (top + under) := by
  constructor
  · rintro ⟨result, h⟩
    obtain ⟨copied, skipped, rest, rfl, rfl, rfl, -⟩ := dupWords_eq_ok.1 h
    exact ⟨cuts_iff.2 ⟨copied, _, rfl, rfl⟩, cuts_iff.2 ⟨copied ++ skipped, rest, by simp, by simp⟩⟩
  · rintro ⟨htop, hunder⟩
    obtain ⟨copied, below, rfl, rfl⟩ := cuts_iff.1 htop
    -- the deeper cut is one of what is below the other one
    have hbelow : Cuts below under := by
      obtain ⟨hle, hlower⟩ := hunder
      simp only [words_append, List.length_append] at hle hlower
      refine ⟨by omega, fun a ha => hlower a ?_⟩
      rw [List.getElem?_append_right (by omega), Nat.add_sub_cancel_left, ha]
    obtain ⟨skipped, rest, rfl, hskipped⟩ := cuts_iff.1 hbelow
    exact ⟨_, dupWords_eq_ok.2 ⟨copied, skipped, rest, rfl, rfl, hskipped, rfl⟩⟩

/-- The words on top go below the words that follow them once more. -/
theorem words_dupWords : dupWords name top under stack = .ok result ↔
    Cuts stack top ∧ Cuts stack (top + under) ∧
      words result = (words stack).take top ++ ((words stack).drop top).take under ++ (words stack).take top ++
        (words stack).drop (top + under) := by
  -- the words of each result are these, so there is but one result that has them
  have hresult : ∀ {result : List α}, dupWords name top under stack = .ok result →
      words result = (words stack).take top ++ ((words stack).drop top).take under ++ (words stack).take top ++
        (words stack).drop (top + under) := by
    intro result h
    obtain ⟨copied, skipped, rest, rfl, rfl, rfl, rfl⟩ := dupWords_eq_ok.1 h
    simp only [words_append, List.take_left, List.drop_left, ← List.drop_drop]
  constructor
  · intro h
    obtain ⟨htop, hunder⟩ := exists_dupWords.1 ⟨result, h⟩
    exact ⟨htop, hunder, hresult h⟩
  · rintro ⟨htop, hunder, hwords⟩
    obtain ⟨result', h⟩ := exists_dupWords.2 ⟨htop, hunder⟩
    rw [words_injective (hwords.trans (hresult h).symm), h]

theorem swap_eq_ok : swap stack = .ok result ↔ ∃ a b rest, width a = .single ∧ width b = .single ∧
    stack = a :: b :: rest ∧ result = b :: a :: rest := by
  unfold swap
  constructor
  · intro h
    split at h
    · rename_i a b rest
      split at h
      · rename_i hwidths
        cases h
        exact ⟨a, b, rest, hwidths.1, hwidths.2, rfl, rfl⟩
      · cases h
    · cases h
  · rintro ⟨a, b, rest, ha, hb, rfl, rfl⟩
    dsimp only
    rw [if_pos ⟨ha, hb⟩]

theorem ofEntry_single (h : width a = .single) : ofEntry a = [.upper a] := by rw [ofEntry, h]

theorem ofEntry_double (h : width a = .double) : ofEntry a = [.upper a, .lower a] := by rw [ofEntry, h]

theorem length_words_single (ha : width a = .single) : (words [a]).length = 1 := by
  rw [words_cons, ofEntry_single ha]
  rfl

theorem length_words_pair (ha : width a = .single) (hb : width b = .single) : (words [a, b]).length = 2 := by
  rw [words_cons, words_cons, ofEntry_single ha, ofEntry_single hb]
  rfl

theorem length_words_wide (ha : width a = .double) : (words [a]).length = 2 := by
  rw [words_cons, ofEntry_double ha]
  rfl

/-- One word is an entry. -/
theorem length_words_eq_one : (words stack).length = 1 ↔ ∃ a, stack = [a] ∧ width a = .single := by
  constructor
  · intro h
    cases stack with
    | nil => cases h
    | cons a below =>
      rw [words_cons, List.length_append, length_ofEntry] at h
      have hpos := words_pos a
      cases below with
      | nil =>
        cases hw : width a with
        | single => exact ⟨a, rfl, hw⟩
        | double => rw [hw] at h; cases h
      | cons b below =>
        rw [words_cons, List.length_append, length_ofEntry] at h
        have hpos := words_pos b
        omega
  · rintro ⟨a, rfl, ha⟩
    exact length_words_single ha

/-- Two words are a wide entry or two others. -/
theorem length_words_eq_two : (words stack).length = 2 ↔
    (∃ a b, stack = [a, b] ∧ width a = .single ∧ width b = .single) ∨ ∃ a, stack = [a] ∧ width a = .double := by
  constructor
  · intro h
    cases stack with
    | nil => cases h
    | cons a below =>
      rw [words_cons, List.length_append, length_ofEntry] at h
      cases hw : width a with
      | single =>
        rw [hw, show Width.single.words = 1 from rfl] at h
        obtain ⟨b, rfl, hb⟩ := length_words_eq_one.1 (show (words below).length = 1 by omega)
        exact .inl ⟨a, b, rfl, hw, hb⟩
      | double =>
        rw [hw, show Width.double.words = 2 from rfl] at h
        cases below with
        | nil => exact .inr ⟨a, rfl, hw⟩
        | cons b below =>
          rw [words_cons, List.length_append, length_ofEntry] at h
          have hpos := words_pos b
          omega
  · rintro (⟨a, b, rfl, ha, hb⟩ | ⟨a, rfl, ha⟩)
    · exact length_words_pair ha hb
    · exact length_words_wide ha

theorem length_words_eq_zero : (words stack).length = 0 ↔ stack = [] := by
  cases stack with
  | nil => simp
  | cons a below =>
    have hpos := words_pos a
    simp only [words_cons, List.length_append, length_ofEntry, reduceCtorEq, iff_false]
    omega

/-- A stack that can be cut below each of the two words on top has two entries of one word there. -/
theorem cuts_one_two : Cuts stack 1 ∧ Cuts stack 2 ↔ ∃ a b rest, width a = .single ∧ width b = .single ∧
    stack = a :: b :: rest := by
  constructor
  · rintro ⟨hone, htwo⟩
    obtain ⟨top, below, rfl, htop⟩ := cuts_iff.1 hone
    obtain ⟨a, rfl, ha⟩ := length_words_eq_one.1 htop
    obtain ⟨pair, rest, heq, hpair⟩ := cuts_iff.1 htwo
    rcases length_words_eq_two.1 hpair with ⟨a', b, rfl, -, hb⟩ | ⟨a', rfl, ha'⟩
    · cases heq
      exact ⟨a, b, rest, ha, hb, rfl⟩
    · cases heq
      rw [ha] at ha'
      cases ha'
  · rintro ⟨a, b, rest, ha, hb, rfl⟩
    exact ⟨cuts_iff.2 ⟨[a], b :: rest, rfl, length_words_eq_one.2 ⟨a, rfl, ha⟩⟩,
      cuts_iff.2 ⟨[a, b], rest, rfl, length_words_eq_two.2 (.inl ⟨a, b, rfl, ha, hb⟩)⟩⟩

theorem exists_swap : (∃ result, swap stack = .ok result) ↔ Cuts stack 1 ∧ Cuts stack 2 := by
  rw [cuts_one_two]
  constructor
  · rintro ⟨result, h⟩
    obtain ⟨a, b, rest, ha, hb, hstack, -⟩ := swap_eq_ok.1 h
    exact ⟨a, b, rest, ha, hb, hstack⟩
  · rintro ⟨a, b, rest, ha, hb, hstack⟩
    exact ⟨_, swap_eq_ok.2 ⟨a, b, rest, ha, hb, hstack, rfl⟩⟩

/-- The two words on top are exchanged. -/
theorem words_swap : swap stack = .ok result ↔
    Cuts stack 1 ∧ Cuts stack 2 ∧
      words result = ((words stack).drop 1).take 1 ++ (words stack).take 1 ++ (words stack).drop 2 := by
  rw [← and_assoc, cuts_one_two, swap_eq_ok]
  constructor
  · rintro ⟨a, b, rest, ha, hb, rfl, rfl⟩
    exact ⟨⟨a, b, rest, ha, hb, rfl⟩, by simp [ofEntry_single ha, ofEntry_single hb]⟩
  · rintro ⟨⟨a, b, rest, ha, hb, rfl⟩, hwords⟩
    exact ⟨a, b, rest, ha, hb, rfl, words_injective (by simpa [ofEntry_single ha, ofEntry_single hb] using hwords)⟩

/-! ### The forms of the stack instructions -/

/-- What a stack instruction finds on top and what it leaves there, the top in front. -/
inductive Form : Opcode → List α → List α → Prop where
  | pop {a : α} (ha : width a = .single) : Form .pop [a] []
  | pop2 {a b : α} (ha : width a = .single) (hb : width b = .single) : Form .pop2 [a, b] []
  | pop2Wide {a : α} (ha : width a = .double) : Form .pop2 [a] []
  | dup {a : α} (ha : width a = .single) : Form (.dup false 0) [a] [a, a]
  | dupX1 {a b : α} (ha : width a = .single) (hb : width b = .single) : Form (.dup false 1) [a, b] [a, b, a]
  | dupX2 {a b c : α} (ha : width a = .single) (hb : width b = .single) (hc : width c = .single) :
      Form (.dup false 2) [a, b, c] [a, b, c, a]
  | dupX2OverWide {a b : α} (ha : width a = .single) (hb : width b = .double) : Form (.dup false 2) [a, b] [a, b, a]
  | dup2 {a b : α} (ha : width a = .single) (hb : width b = .single) : Form (.dup true 0) [a, b] [a, b, a, b]
  | dup2Wide {a : α} (ha : width a = .double) : Form (.dup true 0) [a] [a, a]
  | dup2X1 {a b c : α} (ha : width a = .single) (hb : width b = .single) (hc : width c = .single) :
      Form (.dup true 1) [a, b, c] [a, b, c, a, b]
  | dup2X1Wide {a b : α} (ha : width a = .double) (hb : width b = .single) : Form (.dup true 1) [a, b] [a, b, a]
  | dup2X2 {a b c d : α} (ha : width a = .single) (hb : width b = .single) (hc : width c = .single)
      (hd : width d = .single) : Form (.dup true 2) [a, b, c, d] [a, b, c, d, a, b]
  | dup2X2Wide {a b c : α} (ha : width a = .double) (hb : width b = .single) (hc : width c = .single) :
      Form (.dup true 2) [a, b, c] [a, b, c, a]
  | dup2X2OverWide {a b c : α} (ha : width a = .single) (hb : width b = .single) (hc : width c = .double) :
      Form (.dup true 2) [a, b, c] [a, b, c, a, b]
  | dup2X2WideOverWide {a b : α} (ha : width a = .double) (hb : width b = .double) : Form (.dup true 2) [a, b] [a, b, a]
  | swap {a b : α} (ha : width a = .single) (hb : width b = .single) : Form .swap [a, b] [b, a]

/-- One of the forms of an instruction, with the rest of the stack below. -/
def Rearranges (op : Opcode) (σ τ : List α) : Prop :=
  ∃ before after rest, Form op before after ∧ σ = before ++ rest ∧ τ = after ++ rest

theorem rearranges_pop : (∃ taken, takeWords name 1 σ = .ok (taken, τ)) ↔ Rearranges .pop σ τ := by
  simp only [takeWords_eq_ok, length_words_eq_one]
  constructor
  · rintro ⟨_, rfl, a, rfl, ha⟩
    exact ⟨[a], [], τ, .pop ha, rfl, rfl⟩
  · rintro ⟨_, _, rest, hform, rfl, rfl⟩
    cases hform with
    | pop ha => exact ⟨_, rfl, _, rfl, ha⟩

theorem rearranges_pop2 : (∃ taken, takeWords name 2 σ = .ok (taken, τ)) ↔ Rearranges .pop2 σ τ := by
  simp only [takeWords_eq_ok, length_words_eq_two]
  constructor
  · rintro ⟨_, rfl, ⟨a, b, rfl, ha, hb⟩ | ⟨a, rfl, ha⟩⟩
    · exact ⟨[a, b], [], τ, .pop2 ha hb, rfl, rfl⟩
    · exact ⟨[a], [], τ, .pop2Wide ha, rfl, rfl⟩
  · rintro ⟨_, _, rest, hform, rfl, rfl⟩
    cases hform with
    | pop2 ha hb => exact ⟨_, rfl, .inl ⟨_, _, rfl, ha, hb⟩⟩
    | pop2Wide ha => exact ⟨_, rfl, .inr ⟨_, rfl, ha⟩⟩

theorem rearranges_swap : swap σ = .ok τ ↔ Rearranges .swap σ τ := by
  rw [swap_eq_ok]
  constructor
  · rintro ⟨a, b, rest, ha, hb, rfl, rfl⟩
    exact ⟨[a, b], [b, a], rest, .swap ha hb, rfl, rfl⟩
  · rintro ⟨_, _, rest, hform, rfl, rfl⟩
    cases hform with
    | swap ha hb => exact ⟨_, _, rest, ha, hb, rfl, rfl⟩

/-- What is copied and what it goes below are each nothing, one entry or two, by their words. -/
theorem form_dup {wide : Bool} {under : Fin 3} {copied skipped : List α}
    (hcopied : (words copied).length = if wide then 2 else 1) (hskipped : (words skipped).length = under.val) :
    Form (.dup wide under) (copied ++ skipped) (copied ++ skipped ++ copied) := by
  cases wide with
  | false =>
    obtain ⟨a, rfl, ha⟩ := length_words_eq_one.1 hcopied
    match under, hskipped with
    | 0, hskipped => cases length_words_eq_zero.1 hskipped; exact .dup ha
    | 1, hskipped => obtain ⟨b, rfl, hb⟩ := length_words_eq_one.1 hskipped; exact .dupX1 ha hb
    | 2, hskipped =>
      obtain ⟨b, c, rfl, hb, hc⟩ | ⟨b, rfl, hb⟩ := length_words_eq_two.1 hskipped
      · exact .dupX2 ha hb hc
      · exact .dupX2OverWide ha hb
  | true =>
    obtain ⟨a, b, rfl, ha, hb⟩ | ⟨a, rfl, ha⟩ := length_words_eq_two.1 hcopied
    all_goals match under, hskipped with
    | 0, hskipped => cases length_words_eq_zero.1 hskipped; first | exact .dup2 ha hb | exact .dup2Wide ha
    | 1, hskipped =>
      obtain ⟨c, rfl, hc⟩ := length_words_eq_one.1 hskipped
      first | exact .dup2X1 ha hb hc | exact .dup2X1Wide ha hc
    | 2, hskipped =>
      obtain ⟨c, d, rfl, hc, hd⟩ | ⟨c, rfl, hc⟩ := length_words_eq_two.1 hskipped
      · first | exact .dup2X2 ha hb hc hd | exact .dup2X2Wide ha hc hd
      · first | exact .dup2X2OverWide ha hb hc | exact .dup2X2WideOverWide ha hc

theorem exists_of_form_dup {wide : Bool} {under : Fin 3} {before after : List α}
    (h : Form (.dup wide under) before after) : ∃ copied skipped, before = copied ++ skipped ∧
      after = copied ++ skipped ++ copied ∧ (words copied).length = (if wide then 2 else 1) ∧
      (words skipped).length = under.val := by
  cases h with
  | dup ha => exact ⟨[_], [], rfl, rfl, length_words_single ha, rfl⟩
  | dupX1 ha hb => exact ⟨[_], [_], rfl, rfl, length_words_single ha, length_words_single hb⟩
  | dupX2 ha hb hc => exact ⟨[_], [_, _], rfl, rfl, length_words_single ha, length_words_pair hb hc⟩
  | dupX2OverWide ha hb => exact ⟨[_], [_], rfl, rfl, length_words_single ha, length_words_wide hb⟩
  | dup2 ha hb => exact ⟨[_, _], [], rfl, rfl, length_words_pair ha hb, rfl⟩
  | dup2Wide ha => exact ⟨[_], [], rfl, rfl, length_words_wide ha, rfl⟩
  | dup2X1 ha hb hc => exact ⟨[_, _], [_], rfl, rfl, length_words_pair ha hb, length_words_single hc⟩
  | dup2X1Wide ha hb => exact ⟨[_], [_], rfl, rfl, length_words_wide ha, length_words_single hb⟩
  | dup2X2 ha hb hc hd => exact ⟨[_, _], [_, _], rfl, rfl, length_words_pair ha hb, length_words_pair hc hd⟩
  | dup2X2Wide ha hb hc => exact ⟨[_], [_, _], rfl, rfl, length_words_wide ha, length_words_pair hb hc⟩
  | dup2X2OverWide ha hb hc => exact ⟨[_, _], [_], rfl, rfl, length_words_pair ha hb, length_words_wide hc⟩
  | dup2X2WideOverWide ha hb => exact ⟨[_], [_], rfl, rfl, length_words_wide ha, length_words_wide hb⟩

theorem rearranges_dup (name : String) {wide : Bool} {under : Fin 3} :
    dupWords name (if wide then 2 else 1) under σ = .ok τ ↔ Rearranges (.dup wide under) σ τ := by
  rw [dupWords_eq_ok]
  constructor
  · rintro ⟨copied, skipped, rest, rfl, hcopied, hskipped, rfl⟩
    exact ⟨_, _, rest, form_dup hcopied hskipped, (List.append_assoc ..).symm, rfl⟩
  · rintro ⟨_, _, rest, hform, rfl, rfl⟩
    obtain ⟨copied, skipped, rfl, rfl, hcopied, hskipped⟩ := exists_of_form_dup hform
    exact ⟨copied, skipped, rest, List.append_assoc .., hcopied, hskipped, rfl⟩

end Words

/-- The opcode is one of a stack instruction, which moves entries whatever they are. -/
def Opcode.Shuffles (op : Opcode) : Prop :=
  op = .pop ∨ op = .pop2 ∨ (∃ wide under, op = .dup wide under) ∨ op = .swap

open Words

/-! ### In the analysis -/

namespace Flow

variable {owner : String} {n : Nat} {op : Opcode} {σ τ : List Frame}

theorem exists_rearrange_iff {moved : Except Fault (List Frame)} :
    (∃ e, rearrange (located owner n op moved) = .ok (e, τ)) ↔ moved = .ok τ := by
  constructor
  · rintro ⟨e, he⟩
    cases moved <;> cases he
    rfl
  · rintro rfl
    exact ⟨_, rfl⟩

theorem exists_transfer_pops (i : Instruction) (hi : i.opcode = .pop ∨ i.opcode = .pop2) :
    (∃ e, transfer owner n i σ = .ok (e, τ)) ↔
      ∃ taken, takeWords i.opcode.mnemonic (if i.opcode = .pop then 1 else 2) σ = .ok (taken, τ) := by
  obtain ⟨op, operand⟩ := i
  constructor
  · rintro ⟨e, he⟩
    rcases hi with rfl | rfl
    all_goals
      simp only [transfer] at he
      split at he
      · cases he
      · rename_i taken rest hok
        cases he
        exact ⟨taken, located_ok hok⟩
  · rintro ⟨taken, h⟩
    rcases hi with rfl | rfl
    all_goals
      unfold transfer
      dsimp only at h ⊢
      rw [h]
      exact ⟨_, rfl⟩

/-- The analysis carries out the forms of the stack instructions. -/
theorem transfer_rearranges (owner : String) (n : Nat) {i : Instruction} (hi : i.opcode.Shuffles)
    (σ τ : List Frame) : (∃ e, transfer owner n i σ = .ok (e, τ)) ↔ Rearranges i.opcode σ τ := by
  rcases hi with hi | hi | ⟨wide, under, hi⟩ | hi
  · rw [exists_transfer_pops i (.inl hi), hi, if_pos rfl]
    exact rearranges_pop
  · rw [exists_transfer_pops i (.inr hi), hi, if_neg (by decide)]
    exact rearranges_pop2
  · simp only [transfer, hi]
    exact exists_rearrange_iff.trans (rearranges_dup _)
  · simp only [transfer, hi]
    exact exists_rearrange_iff.trans rearranges_swap

end Flow

/-! ### In the machine -/

namespace OperandStack

variable {name : String} {n top under : Nat} {s t : OperandStack}

/-- A stack is given by its limit and its entries. -/
theorem ok_eq_ok {values : List Value} {depth : Nat} {hdepth : depth = values.length} :
    (.ok () ⟨s.limit, values, depth, hdepth⟩ : EStateM.Result Fault OperandStack Unit) = .ok () t ↔
      t.limit = s.limit ∧ values = t.values := by
  obtain ⟨limit, entries, count, rfl⟩ := t
  subst hdepth
  constructor
  · intro h
    cases h
    exact ⟨rfl, rfl⟩
  · rintro ⟨rfl, rfl⟩
    rfl

theorem popWords_eq_ok : popWords name n s = .ok () t ↔
    t.limit = s.limit ∧ ∃ taken, takeWords name n s.values = .ok (taken, t.values) := by
  unfold popWords
  split
  · rename_i f herror
    simp [herror]
  · rename_i taken rest hok
    rw [ok_eq_ok, hok]
    simp

theorem swap_eq_ok : swap s = .ok () t ↔ t.limit = s.limit ∧ Words.swap s.values = .ok t.values := by
  unfold swap
  split
  · rename_i f herror
    simp [herror]
  · rename_i values hok
    rw [ok_eq_ok, hok, Except.ok.injEq]

theorem dupUnchecked_eq_ok : dupUnchecked name top under s = .ok () t ↔
    t.limit = s.limit ∧ dupWords name top under s.values = .ok t.values := by
  unfold dupUnchecked
  split
  · rename_i copied below values htop hok
    rw [ok_eq_ok, hok, Except.ok.injEq]
  · rename_i herror
    simp [dupWords, herror]
  · rename_i herror _
    simp [herror]

/-- A copy is made before the limit is looked at. -/
theorem dup_eq_ok : dup name top under s = .ok () t ↔
    t.limit = s.limit ∧ dupWords name top under s.values = .ok t.values ∧ t.values.length ≤ s.limit := by
  have hdup : dup name top under s = _ := OperandStack.bind_apply _ _ s
  rw [← and_assoc, ← dupUnchecked_eq_ok, hdup]
  cases hcopy : dupUnchecked name top under s with
  | error f u => simp
  | ok x u =>
    obtain ⟨hlimit, -⟩ := dupUnchecked_eq_ok.1 hcopy
    dsimp only
    unfold checkLimit
    rw [u.depth_eq, hlimit]
    split
    · refine ⟨nofun, fun ⟨heq, hroom⟩ => ?_⟩
      cases heq
      omega
    · refine ⟨fun h => ⟨h, ?_⟩, fun h => h.1⟩
      cases h
      omega

end OperandStack

namespace Step

variable {chain : Chain} {hooks : Hooks} {i : Instruction} {a : Activation} {w : World} {s : State}
  {t : OperandStack}

/-- The instruction goes on with this stack, and changes nothing else. -/
def Leaves (chain : Chain) (hooks : Hooks) (i : Instruction) (a : Activation) (w : World) (s : State)
    (t : OperandStack) : Prop :=
  execute chain hooks i a w s = .ok (.advance, { a with stack := t }) s

/-- An instruction that is a stack operation. -/
theorem leaves_iff {m : StackM Unit} (hm : execute chain hooks i = (do liftM m; return .advance)) :
    Leaves chain hooks i a w s t ↔ m a.stack = .ok () t := by
  rw [Leaves, hm, bind_apply, liftStack_apply]
  cases m a.stack with
  | error f u => exact ⟨nofun, nofun⟩
  | ok x u =>
    constructor
    · intro h
      injection h with h
      injection h with _ h
      injection h with h
      rw [h]
    · intro h
      injection h with _ h
      rw [h]
      rfl

/-- The machine carries out the forms of the stack instructions, copies as far as its limit allows. -/
theorem leaves_rearranged (chain : Chain) (hooks : Hooks) (hi : i.opcode.Shuffles) (a : Activation) (w : World)
    (s : State) (t : OperandStack) : Leaves chain hooks i a w s t ↔
      t.limit = a.stack.limit ∧ Rearranges i.opcode a.stack.values t.values ∧
        ((∃ wide under, i.opcode = .dup wide under) → t.values.length ≤ a.stack.limit) := by
  obtain ⟨op, operand⟩ := i
  rcases hi with rfl | rfl | ⟨wide, under, rfl⟩ | rfl
  · rw [leaves_iff rfl, OperandStack.popWords_eq_ok, rearranges_pop]
    simp
  · rw [leaves_iff rfl, OperandStack.popWords_eq_ok, rearranges_pop2]
    simp
  · rw [leaves_iff rfl, OperandStack.dup_eq_ok, rearranges_dup]
    simp
  · rw [leaves_iff rfl, OperandStack.swap_eq_ok, rearranges_swap]
    simp

end Step

/-! ### The meaning of the stack instructions -/

/-- Taking, copying and exchanging words succeeds just where no entry is cut, and moves the words of the stack; a
failure leaves the stack as it was. The instructions are the forms of this that the words of the entries allow, in
the analysis and in the machine. -/
theorem shuffles_move_words :
    (∀ {α : Type} [HasWidth α] (name : String) (σ : List α),
      (∀ n, (∃ r, takeWords name n σ = .ok r) ↔ Cuts σ n) ∧
      (∀ n taken rest, takeWords name n σ = .ok (taken, rest) ↔
        Cuts σ n ∧ words taken = (words σ).take n ∧ words rest = (words σ).drop n) ∧
      (∀ top under, (∃ τ, dupWords name top under σ = .ok τ) ↔ Cuts σ top ∧ Cuts σ (top + under)) ∧
      (∀ top under τ, dupWords name top under σ = .ok τ ↔
        Cuts σ top ∧ Cuts σ (top + under) ∧
          words τ = (words σ).take top ++ ((words σ).drop top).take under ++ (words σ).take top ++
            (words σ).drop (top + under)) ∧
      ((∃ τ, Words.swap σ = .ok τ) ↔ Cuts σ 1 ∧ Cuts σ 2) ∧
      (∀ τ, Words.swap σ = .ok τ ↔
        Cuts σ 1 ∧ Cuts σ 2 ∧ words τ = ((words σ).drop 1).take 1 ++ (words σ).take 1 ++ (words σ).drop 2)) ∧
    (∀ (name : String) (n top under : Nat) (s t : OperandStack) (f : Fault),
      (OperandStack.popWords name n s = .error f t → t = s) ∧
      (OperandStack.dupUnchecked name top under s = .error f t → t = s) ∧
      (OperandStack.swap s = .error f t → t = s)) ∧
    ∀ i : Instruction, i.opcode.Shuffles →
      (∀ owner n σ τ, (∃ e, Flow.transfer owner n i σ = .ok (e, τ)) ↔ Rearranges i.opcode σ τ) ∧
      ∀ chain hooks a w s t, Step.Leaves chain hooks i a w s t ↔
        t.limit = a.stack.limit ∧ Rearranges i.opcode a.stack.values t.values ∧
          ((∃ wide under, i.opcode = .dup wide under) → t.values.length ≤ a.stack.limit) := by
  refine ⟨fun name σ => ⟨fun n => exists_takeWords, fun n taken rest => words_takeWords,
    fun top under => exists_dupWords, fun top under τ => words_dupWords, Words.exists_swap, fun τ => words_swap⟩,
    fun name n top under s t f => ⟨fun h => ?_, fun h => ?_, fun h => ?_⟩,
    fun i hi => ⟨fun owner n σ τ => Flow.transfer_rearranges owner n hi σ τ,
      fun chain hooks a w s t => Step.leaves_rearranged chain hooks hi a w s t⟩⟩
  · unfold OperandStack.popWords at h
    split at h <;> cases h
    rfl
  · unfold OperandStack.dupUnchecked at h
    split at h <;> cases h <;> rfl
  · unfold OperandStack.swap at h
    split at h <;> cases h
    rfl

end Jvm
