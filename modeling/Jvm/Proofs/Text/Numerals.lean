import Jvm.Library.Objects
import Jvm.Proofs.Machine.ArrayCopy
import Jvm.Proofs.Machine.NewObjects
import Jvm.Proofs.Text.Reversal
import Mathlib.Data.Nat.Digits.Defs

/-!
# Numerals

A text writes a number in a base if it has digits of the base, with or without a sign in front (`IsNumeral`). Digits are
those of ASCII and then its letters, in either case. `integer?_eq_some`: these are the texts that are read, as the
number that they write. Since no character of ASCII is a part of another one, it makes no difference that the reader
sees characters where the text has units (`chars_eq_cons`).

`numerals_read` says the same of the native methods that read an `int` or a `long`, whose range bounds the number; and
it says that the numeral by which a builder writes an `int` is read as this number again.
-/

namespace Jvm

namespace Units

/-- The digit that a unit stands for: one of ASCII, or a letter in either case behind 9. -/
inductive IsDigit : UInt16 → Nat → Prop
  | decimal {d : Nat} (hd : d < 10) : IsDigit (UInt16.ofNat (0x30 + d)) d
  | upper {d : Nat} (hd : d < 26) : IsDigit (UInt16.ofNat (0x41 + d)) (d + 10)
  | lower {d : Nat} (hd : d < 26) : IsDigit (UInt16.ofNat (0x61 + d)) (d + 10)

/-- At least one digit of a base, the first of which counts most. -/
def IsNatural (radix : Nat) (us : Units) (n : Nat) : Prop :=
  us ≠ [] ∧ ∃ ds, List.Forall₂ IsDigit us ds ∧ (∀ d ∈ ds, d < radix) ∧ n = Nat.ofDigits radix ds.reverse

/-- Digits of a base, with or without a sign in front. -/
inductive IsNumeral (radix : Nat) : Units → Int → Prop
  | unsigned {us : Units} {n : Nat} : IsNatural radix us n → IsNumeral radix us n
  | plus {us : Units} {n : Nat} : IsNatural radix us n → IsNumeral radix (0x2b :: us) n
  | minus {us : Units} {n : Nat} : IsNatural radix us n → IsNumeral radix (0x2d :: us) (-n)

variable {us vs : Units} {u : UInt16} {c : Char} {cs : List Char} {d n radix : Nat}

/-! ### Characters of ASCII -/

theorem le_toNat_pairChar {v : UInt16} (h : isHigh u) (h' : isLow v) : 0x10000 ≤ (pairChar u v).toNat := by
  rw [isHigh_iff] at h
  rw [isLow_iff] at h'
  have hvalid : (0x10000 + (u.toNat - 0xd800) * 0x400 + (v.toNat - 0xdc00)).isValidChar := by
    unfold Nat.isValidChar
    omega
  rw [pairChar, toNat_ofNat hvalid]
  omega

/-- Where a text begins with a surrogate, no character of ASCII is read. -/
theorem chars_surrogate (h : (isHigh u || isLow u) = true) (us : Units) :
    ∃ c cs, chars '\ufffd' (u :: us) = c :: cs ∧ 0x80 ≤ c.toNat := by
  cases us with
  | nil => exact ⟨_, _, by rw [chars, if_pos h], by decide⟩
  | cons v us =>
    cases hhigh : isHigh u with
    | true =>
      cases hlow : isLow v with
      | true =>
        have hpair := le_toNat_pairChar hhigh hlow
        exact ⟨_, _, chars_pair hhigh hlow us, by omega⟩
      | false => exact ⟨_, _, by rw [chars, if_pos hhigh, hlow]; rfl, by decide⟩
    | false =>
      rw [hhigh, Bool.false_or] at h
      exact ⟨_, _, by rw [chars, hhigh, if_pos h]; rfl, by decide⟩

/-- A character of ASCII is read just from its own unit. -/
theorem chars_eq_cons (hc : c.toNat < 0x80) :
    chars '\ufffd' us = c :: cs ↔ ∃ vs, us = c.toNat.toUInt16 :: vs ∧ chars '\ufffd' vs = cs := by
  have hunit : c.toNat.toUInt16.toNat = c.toNat := toNat_toUInt16 (by omega)
  have hplain : isHigh c.toNat.toUInt16 = false ∧ isLow c.toNat.toUInt16 = false := by
    simp only [Bool.eq_false_iff, ne_eq, isHigh_iff, isLow_iff]
    omega
  constructor
  · intro h
    cases us with
    | nil => cases h
    | cons u us =>
      cases hu : isHigh u || isLow u with
      | true =>
        -- the first character is no one of ASCII, whether the surrogate is paired or not
        obtain ⟨x, xs, hxs, hx⟩ := chars_surrogate hu us
        cases hxs.symm.trans h
        omega
      | false =>
        rw [Bool.or_eq_false_iff] at hu
        rw [chars_single hu.1 hu.2] at h
        cases h
        have hvalid : u.toNat.isValidChar := by
          simp only [Bool.eq_false_iff, ne_eq, isHigh_iff, isLow_iff] at hu
          have hlt := u.toNat_lt
          unfold Nat.isValidChar
          omega
        exact ⟨us, by rw [toNat_ofNat hvalid, Nat.toUInt16_eq, UInt16.ofNat_toNat], rfl⟩
  · rintro ⟨vs, rfl, rfl⟩
    rw [chars_single hplain.1 hplain.2, hunit, Char.ofNat_toNat]

theorem chars_eq_nil : chars '\ufffd' us = [] ↔ us = [] := by
  refine ⟨fun h => ?_, fun h => h ▸ rfl⟩
  cases us with
  | nil => rfl
  | cons u us =>
    cases hu : isHigh u || isLow u with
    | true =>
      obtain ⟨x, xs, hxs, -⟩ := chars_surrogate hu us
      cases hxs.symm.trans h
    | false =>
      rw [Bool.or_eq_false_iff] at hu
      rw [chars_single hu.1 hu.2] at h
      cases h

/-! ### Digits -/

theorem digitValue?_eq_some : Text.digitValue? c = some d ↔
    (48 ≤ c.toNat ∧ c.toNat ≤ 57 ∧ d = c.toNat - 48) ∨ (97 ≤ c.toNat ∧ c.toNat ≤ 122 ∧ d = c.toNat - 97 + 10) ∨
      (65 ≤ c.toNat ∧ c.toNat ≤ 90 ∧ d = c.toNat - 65 + 10) := by
  have hle (a b : Char) : a ≤ b ↔ a.toNat ≤ b.toNat := Iff.rfl
  have hvalues : '0'.toNat = 48 ∧ '9'.toNat = 57 ∧ 'a'.toNat = 97 ∧ 'z'.toNat = 122 ∧ 'A'.toNat = 65 ∧
      'Z'.toNat = 90 := by decide
  obtain ⟨h0, h9, ha, hz, hA, hZ⟩ := hvalues
  simp only [Text.digitValue?, Bool.and_eq_true, decide_eq_true_eq, hle, h0, h9, ha, hz, hA, hZ]
  split
  · rw [Option.some.injEq]
    omega
  split
  · rw [Option.some.injEq]
    omega
  split
  · rw [Option.some.injEq]
    omega
  · refine iff_of_false nofun ?_
    omega

/-- A unit stands for the digit that its character stands for. -/
theorem isDigit_iff :
    IsDigit u d ↔ ∃ c : Char, c.toNat < 0x80 ∧ u = c.toNat.toUInt16 ∧ Text.digitValue? c = some d := by
  constructor
  · have hchar {n : Nat} (hn : n < 0x80) : (Char.ofNat n).toNat = n := toNat_ofNat (.inl (by omega))
    intro h
    cases h with
    | @decimal _ hd =>
      have hc := hchar (n := 0x30 + d) (by omega)
      exact ⟨Char.ofNat (0x30 + d), by omega, by rw [hc], digitValue?_eq_some.2 (by omega)⟩
    | @upper d hd =>
      have hc := hchar (n := 0x41 + d) (by omega)
      exact ⟨Char.ofNat (0x41 + d), by omega, by rw [hc], digitValue?_eq_some.2 (by omega)⟩
    | @lower d hd =>
      have hc := hchar (n := 0x61 + d) (by omega)
      exact ⟨Char.ofNat (0x61 + d), by omega, by rw [hc], digitValue?_eq_some.2 (by omega)⟩
  · rintro ⟨c, -, rfl, hvalue⟩
    obtain ⟨hlow, hhigh, rfl⟩ | ⟨hlow, hhigh, rfl⟩ | ⟨hlow, hhigh, rfl⟩ := digitValue?_eq_some.1 hvalue
    · have h := IsDigit.decimal (d := c.toNat - 48) (by omega)
      rwa [Nat.add_sub_cancel' hlow] at h
    · have h := IsDigit.lower (d := c.toNat - 97) (by omega)
      rwa [Nat.add_sub_cancel' hlow] at h
    · have h := IsDigit.upper (d := c.toNat - 65) (by omega)
      rwa [Nat.add_sub_cancel' hlow] at h

theorem forall₂_isDigit {ds : List Nat} :
    List.Forall₂ (fun c d => Text.digitValue? c = some d) (chars '\ufffd' us) ds ↔ List.Forall₂ IsDigit us ds := by
  induction ds generalizing us with
  | nil => rw [List.forall₂_nil_right_iff, List.forall₂_nil_right_iff, chars_eq_nil]
  | cons d ds ih =>
    rw [List.forall₂_cons_right_iff, List.forall₂_cons_right_iff]
    constructor
    · rintro ⟨c, cs, hvalue, hcs, hchars⟩
      have hc : c.toNat < 0x80 := by
        have hvalues := digitValue?_eq_some.1 hvalue
        omega
      obtain ⟨vs, rfl, rfl⟩ := (chars_eq_cons hc).1 hchars
      exact ⟨_, vs, isDigit_iff.2 ⟨c, hc, rfl, hvalue⟩, ih.1 hcs, rfl⟩
    · rintro ⟨u, vs, hu, hvs, rfl⟩
      obtain ⟨c, hc, rfl, hvalue⟩ := isDigit_iff.1 hu
      exact ⟨c, _, hvalue, ih.2 hvs, (chars_eq_cons hc).2 ⟨vs, rfl, rfl⟩⟩

theorem digitsFrom?_eq_some {m : Nat} : Text.digitsFrom? radix n cs = some m ↔
    ∃ ds, List.Forall₂ (fun c d => Text.digitValue? c = some d) cs ds ∧ (∀ d ∈ ds, d < radix) ∧
      m = ds.foldl (fun n d => n * radix + d) n := by
  induction cs generalizing n with
  | nil => simp [Text.digitsFrom?, eq_comm]
  | cons c cs ih =>
    simp only [Text.digitsFrom?, bind, Option.bind_eq_some_iff]
    constructor
    · rintro ⟨d, hd, h⟩
      split at h
      · rename_i hlt
        obtain ⟨ds, hds, hall, hm⟩ := ih.1 h
        exact ⟨d :: ds, .cons hd hds, List.forall_mem_cons.2 ⟨hlt, hall⟩, hm⟩
      · cases h
    · rintro ⟨ds, hds, hall, hm⟩
      cases hds with
      | @cons _ d _ ds hd hds =>
        obtain ⟨hlt, hall⟩ := List.forall_mem_cons.1 hall
        exact ⟨d, hd, by rw [if_pos hlt]; exact ih.2 ⟨ds, hds, hall, hm⟩⟩

/-- The value of digits from the left is their positional value. -/
theorem foldl_digits (ds : List Nat) : ds.foldl (fun n d => n * radix + d) 0 = Nat.ofDigits radix ds.reverse := by
  rw [Nat.ofDigits_eq_foldr, List.foldr_reverse]
  simp [Nat.mul_comm, Nat.add_comm]

theorem digits?_eq_some : Text.digits? radix (chars '\ufffd' us) = some n ↔ IsNatural radix us n := by
  rw [Text.digits?, IsNatural]
  by_cases hnil : us = []
  · rw [if_pos (List.isEmpty_iff.2 (chars_eq_nil.2 hnil))]
    exact iff_of_false nofun fun h => h.1 hnil
  · rw [if_neg (mt List.isEmpty_iff.1 (mt chars_eq_nil.1 hnil)), digitsFrom?_eq_some]
    simp only [forall₂_isDigit, foldl_digits, ne_eq, hnil, not_false_eq_true, true_and]

theorem not_isNatural_of_sign (hu : u = 0x2b ∨ u = 0x2d) : ¬ IsNatural radix (u :: us) n := by
  rintro ⟨-, ds, hds, -⟩
  cases hds with
  | cons hdigit =>
    obtain ⟨c, hc, rfl, hvalue⟩ := isDigit_iff.1 hdigit
    have hunit : c.toNat.toUInt16.toNat = c.toNat := toNat_toUInt16 (by omega)
    have hvalues := digitValue?_eq_some.1 hvalue
    obtain h | h := hu <;> rw [h] at hunit <;> simp at hunit <;> omega

/-- The number that a text writes in a base is the one that it is a numeral of. -/
theorem integer?_eq_some {i : Int} : Text.integer? radix (chars '\ufffd' us) = some i ↔ IsNumeral radix us i := by
  have hminus (vs : Units) : chars '\ufffd' (0x2d :: vs) = '-' :: chars '\ufffd' vs :=
    (chars_eq_cons (by decide)).2 ⟨vs, rfl, rfl⟩
  have hplus (vs : Units) : chars '\ufffd' (0x2b :: vs) = '+' :: chars '\ufffd' vs :=
    (chars_eq_cons (by decide)).2 ⟨vs, rfl, rfl⟩
  unfold Text.integer?
  split
  · rename_i rest h
    obtain ⟨vs, rfl, rfl⟩ := (chars_eq_cons (by decide)).1 h
    simp only [bind_pure_comp, Option.map_eq_map, Option.map_map, Option.map_eq_some_iff, digits?_eq_some]
    constructor
    · rintro ⟨n, hn, rfl⟩
      exact .minus hn
    · intro hi
      cases hi with
      | unsigned hn => exact absurd hn (not_isNatural_of_sign (.inr rfl))
      | minus hn => exact ⟨_, hn, rfl⟩
  · rename_i rest h
    obtain ⟨vs, rfl, rfl⟩ := (chars_eq_cons (by decide)).1 h
    simp only [Option.map_eq_some_iff, digits?_eq_some]
    constructor
    · rintro ⟨n, hn, rfl⟩
      exact .plus hn
    · intro hi
      cases hi with
      | unsigned hn => exact absurd hn (not_isNatural_of_sign (.inl rfl))
      | plus hn => exact ⟨_, hn, rfl⟩
  · rename_i hnoMinus hnoPlus
    simp only [Option.map_eq_some_iff, digits?_eq_some]
    constructor
    · rintro ⟨n, hn, rfl⟩
      exact .unsigned hn
    · intro hi
      cases hi with
      | unsigned hn => exact ⟨_, hn, rfl⟩
      | plus hn => exact absurd (hplus _) (hnoPlus _)
      | minus hn => exact absurd (hminus _) (hnoMinus _)

/-! ### Decimal numerals that are written -/

theorem digitsFrom?_of_isDigit (hcs : ∀ c ∈ cs, c.isDigit = true) (n : Nat) :
    Text.digitsFrom? 10 n cs = some (Nat.ofDigitChars 10 cs n) := by
  induction cs generalizing n with
  | nil => rfl
  | cons c cs ih =>
    obtain ⟨hc, hcs⟩ := List.forall_mem_cons.1 hcs
    have hbounds : 48 ≤ c.toNat ∧ c.toNat ≤ 57 := Char.isDigit_iff_toNat.1 hc
    have hvalue : Text.digitValue? c = some (c.toNat - 48) := digitValue?_eq_some.2 (.inl ⟨hbounds.1, hbounds.2, rfl⟩)
    simp only [Text.digitsFrom?, hvalue, bind, Option.bind_some]
    rw [if_pos (by omega), ih hcs, Nat.ofDigitChars_cons, Nat.mul_comm]
    rfl

theorem isNatural_repr (n : Nat) : IsNatural 10 (ofString n.repr) n := by
  rw [← digits?_eq_some, ofString, chars_ofChars, Nat.toList_repr, Text.digits?,
    if_neg (by simp [Nat.toDigits_ne_nil]),
    digitsFrom?_of_isDigit fun c => Nat.isDigit_of_mem_toDigits (by decide) (by decide),
    Nat.ofDigitChars_toDigits (by decide) (by decide)]

theorem isNumeral_toString (i : Int) : IsNumeral 10 (ofString (toString i)) i := by
  cases i with
  | ofNat n => exact .unsigned (isNatural_repr n)
  | negSucc n =>
    have htext : ofString (toString (Int.negSucc n)) = 0x2d :: ofString (n + 1).repr := by
      change ofString ("-" ++ (n + 1).repr) = _
      rw [ofString, String.toList_append]
      rfl
    rw [htext]
    exact .minus (isNatural_repr (n + 1))

end Units

namespace Library

open Jvm.Units

variable {text : Units} {radix : Int32} {least bound i : Int}

theorem parseInteger_eq_ok : parseInteger text radix least bound = .ok i ↔
    (2 ≤ radix.toInt ∧ radix.toInt ≤ 36) ∧ IsNumeral radix.toInt.toNat text i ∧ least ≤ i ∧ i < bound := by
  have hrange : (2 ≤ radix ∧ radix ≤ 36) ↔ 2 ≤ radix.toInt ∧ radix.toInt ≤ 36 := by
    rw [Int32.le_iff_toInt_le, Int32.le_iff_toInt_le]
    rfl
  rw [parseInteger, Units.toStringLossy, String.toList_ofList, ← hrange, ← integer?_eq_some]
  by_cases hradix : 2 ≤ radix ∧ radix ≤ 36
  · rw [if_pos hradix]
    cases Text.integer? radix.toInt.toNat (chars '\ufffd' text) with
    | none => simp
    | some n =>
      dsimp only
      rw [Option.some.injEq]
      constructor
      · intro h
        split at h
        · rename_i hn
          cases h
          exact ⟨hradix, rfl, hn⟩
        · cases h
      · rintro ⟨-, rfl, hn⟩
        rw [if_pos hn]
  · rw [if_neg hradix]
    exact iff_of_false nofun fun h => hradix h.1

theorem parseInteger_error {f : Fault} (h : parseInteger text radix least bound = .error f) :
    f = .numberFormat text.toStringLossy := by
  rw [parseInteger] at h
  split at h
  · split at h <;> cases h
    rfl
  · cases h
    rfl

/-- The `long` of a text is the one that the text is a numeral of. -/
theorem parseLongText_eq_ok {v : Value} : parseLongText text radix = .ok v ↔
    (2 ≤ radix.toInt ∧ radix.toInt ≤ 36) ∧ ∃ x : Int64, v = .long x ∧ IsNumeral radix.toInt.toNat text x.toInt := by
  rw [parseLongText]
  constructor
  · intro h
    cases hi : parseInteger text radix (-0x8000000000000000) 0x8000000000000000 with
    | error f => rw [hi] at h; cases h
    | ok i =>
      rw [hi] at h
      cases h
      obtain ⟨hradix, hnumeral, hleast, hbound⟩ := parseInteger_eq_ok.1 hi
      refine ⟨hradix, _, rfl, ?_⟩
      rwa [Int64.toInt_ofInt_of_le (by simpa using hleast) (by simpa using hbound)]
  · rintro ⟨hradix, x, rfl, hnumeral⟩
    have hx : parseInteger text radix (-0x8000000000000000) 0x8000000000000000 = .ok x.toInt :=
      parseInteger_eq_ok.2 ⟨hradix, hnumeral, x.le_toInt, x.toInt_lt⟩
    rw [hx]
    exact congrArg (Except.ok ∘ Value.long) (Int64.ofInt_toInt x)

theorem parseIntText_eq_ok {v : Value} :
    parseIntText text = .ok v ↔ ∃ x : Int32, v = .int x ∧ IsNumeral 10 text x.toInt := by
  rw [parseIntText]
  constructor
  · intro h
    cases hi : parseInteger text 10 (-0x80000000) 0x80000000 with
    | error f => rw [hi] at h; cases h
    | ok i =>
      rw [hi] at h
      cases h
      obtain ⟨-, hnumeral, hleast, hbound⟩ := parseInteger_eq_ok.1 hi
      refine ⟨_, rfl, ?_⟩
      rwa [Int32.toInt_ofInt_of_le (by simpa using hleast) (by simpa using hbound)]
  · rintro ⟨x, rfl, hnumeral⟩
    have hx : parseInteger text 10 (-0x80000000) 0x80000000 = .ok x.toInt :=
      parseInteger_eq_ok.2 ⟨by decide, hnumeral, x.le_toInt, x.toInt_lt⟩
    rw [hx]
    exact congrArg (Except.ok ∘ Value.int) (Int32.ofInt_toInt x)

theorem parseLongText_error {f : Fault} (h : parseLongText text radix = .error f) :
    f = .numberFormat text.toStringLossy := by
  rw [parseLongText] at h
  cases hi : parseInteger text radix (-0x8000000000000000) 0x8000000000000000 with
  | error g =>
    rw [hi] at h
    cases h
    exact parseInteger_error hi
  | ok i => rw [hi] at h; cases h

theorem parseIntText_error {f : Fault} (h : parseIntText text = .error f) : f = .numberFormat text.toStringLossy := by
  rw [parseIntText] at h
  cases hi : parseInteger text 10 (-0x80000000) 0x80000000 with
  | error g =>
    rw [hi] at h
    cases h
    exact parseInteger_error hi
  | ok i => rw [hi] at h; cases h

/-- Appends a number to a builder, makes a string of it and reads the number off this string. -/
def reread (builder : Value) (n : Int32) : Exec Value := do
  let builder ← appendInt <|
    .onObject .virtual ⟨"java/lang/StringBuilder", "append", "(I)Ljava/lang/StringBuilder;"⟩ builder [.int n]
  let text ← builderText <|
    .onObject .virtual ⟨"java/lang/StringBuilder", "toString", "()Ljava/lang/String;"⟩ builder []
  parseInt <| .onClass ⟨"java/lang/Integer", "parseInt", "(Ljava/lang/String;)I"⟩ [text]

end Library

/-! ### Numbers that are read -/

/-- The action changes nothing. It ends with the values that a text writes, of which there is at most one, and reports
the text where it writes none. -/
structure Exec.ReadsNumber (x : Exec Value) (w : World) (s : State) (text : Units) (Writes : Value → Prop) : Prop where
  result : ∀ v t, x w s = .ok v t ↔ Writes v ∧ t = s
  refusal : (∀ v, ¬ Writes v) → x w s = .error (.error (.emulation (.numberFormat text.toStringLossy))) s

namespace Exec.ReadsNumber

variable {x : Exec Value} {w : World} {s : State} {text : Units} {Writes : Value → Prop} {r : Except Fault Value}

theorem of_text (hx : x w s = (liftM r : Exec Value) w s) (hok : ∀ v, r = .ok v ↔ Writes v)
    (herror : ∀ f, r = .error f → f = .numberFormat text.toStringLossy) : x.ReadsNumber w s text Writes := by
  rw [ofExcept_apply] at hx
  cases r with
  | ok v =>
    refine ⟨fun v' t => ?_, fun hnone => absurd ((hok v).1 rfl) (hnone v)⟩
    rw [hx, ← hok]
    constructor
    · rintro ⟨⟩
      exact ⟨rfl, rfl⟩
    · rintro ⟨⟨⟩, rfl⟩
      rfl
  | error f =>
    refine ⟨fun v t => ?_, fun _ => ?_⟩
    · rw [hx, ← hok]
      exact iff_of_false nofun fun h => nomatch h.1
    · rw [hx, herror f rfl]

end Exec.ReadsNumber

section

open Jvm.Library Jvm.Units

variable {w : World} {s : State} {c : Call} {id : Nat} {text : Units}

theorem stringArgument_bind {α : Type} (harg : c.arguments[0]? = some (.ref id))
    (hid : s.heap.contents? id = some (.string text)) (f : Units → Exec α) (w : World) :
    (c.stringArgument 0 >>= f) w s = f text w s := by
  rw [Exec.bind_of_ok (Call.stringArgument_apply harg (Heap.narrow_string.2 ⟨id, rfl, hid⟩) w)]

theorem readsNumber_parseLong (harg : c.arguments[0]? = some (.ref id))
    (hid : s.heap.contents? id = some (.string text)) (w : World) :
    (parseLong c).ReadsNumber w s text fun v => ∃ x : Int64, v = .long x ∧ IsNumeral 10 text x.toInt := by
  refine .of_text (stringArgument_bind harg hid _ w) (fun v => ?_) fun _ => parseLongText_error
  rw [parseLongText_eq_ok]
  exact and_iff_right (by decide)

theorem readsNumber_parseLongRadix {radix : Int32} (harg : c.arguments[0]? = some (.ref id))
    (hradix : c.arguments[1]? = some (.int radix)) (hid : s.heap.contents? id = some (.string text)) (w : World) :
    (parseLongRadix c).ReadsNumber w s text fun v =>
      (2 ≤ radix.toInt ∧ radix.toInt ≤ 36) ∧ ∃ x : Int64, v = .long x ∧ IsNumeral radix.toInt.toNat text x.toInt := by
  have hint : c.intArgument 1 = .ok radix := by
    rw [Call.intArgument, Call.argument_eq hradix]
    rfl
  refine .of_text ?_ (fun _ => parseLongText_eq_ok) fun _ => parseLongText_error
  rw [parseLongRadix, stringArgument_bind harg hid, Exec.bind_of_ok (Exec.ofExcept_of_ok hint w s)]

theorem readsNumber_parseInt (harg : c.arguments[0]? = some (.ref id))
    (hid : s.heap.contents? id = some (.string text)) (w : World) :
    (parseInt c).ReadsNumber w s text fun v => ∃ x : Int32, v = .int x ∧ IsNumeral 10 text x.toInt :=
  .of_text (stringArgument_bind harg hid _ w) (fun _ => parseIntText_eq_ok) fun _ => parseIntText_error

/-- A number that an empty builder writes is read again; only room for the string may be missing. -/
theorem reread_apply (hid : s.heap.contents? id = some (.builder #[])) (n : Int32) (w : World) :
    if s.heap.HasRoom 1 then ∃ t, reread (.ref id) n w s = .ok (.int n) t
    else ∃ t, reread (.ref id) n w s = .error (.error (.emulation (.heapLimit s.heap.limit))) t := by
  let written := Units.ofString (toString n.toInt)
  let s' : State := { s with heap := s.heap.setPayload id (.builder written.toArray) }
  have hid' : s'.heap.contents? id = some (.builder written.toArray) := Heap.contents?_setPayload_self hid _
  have hroom : s'.heap.HasRoom 1 ↔ s.heap.HasRoom 1 := by
    rw [Heap.HasRoom, Heap.size_setPayload]
    rfl
  have happend (c : Call) (hthis : c.receiver = some (.ref id)) (harg : c.arguments[0]? = some (.int n)) :
      appendInt c w s = .ok (.ref id) s' := by
    have hint : c.intArgument 0 = .ok n := by
      rw [Call.intArgument, Call.argument_eq harg]
      rfl
    rw [appendInt, Exec.bind_of_ok (Exec.ofExcept_of_ok hint w s), appendUnits, editBuilder_apply hthis hid]
    simp [s', written]
  have htext (c : Call) (hthis : c.receiver = some (.ref id)) : builderText c w s' = Exec.newString written w s' := by
    rw [builderText, Exec.bind_of_ok (Call.narrowThis_apply hthis (Heap.narrow_eq_ok.2 ⟨id, _, rfl, hid', rfl⟩) w)]
  rw [reread, Exec.bind_of_ok (happend _ rfl rfl), Exec.bind_apply, htext _ rfl]
  split
  · rename_i h
    have hread (t : State) (k : Nat) (ht : t.heap.contents? k = some (.string written)) (c : Call)
        (harg : c.arguments[0]? = some (.ref k)) : parseInt c w t = .ok (.int n) t :=
      ((readsNumber_parseInt harg ht w).result _ _).2 ⟨⟨n, rfl, isNumeral_toString n.toInt⟩, rfl⟩
    rw [Exec.newString, Exec.allocate_apply (hroom.2 h)]
    exact ⟨_, hread _ _ (Heap.contents?_append_size ..) _ rfl⟩
  · rename_i h
    obtain ⟨e, he⟩ := Exec.allocate_of_not_hasRoom (mt hroom.1 h) (.string written) w
    obtain ⟨-, rfl⟩ := Exec.allocate_error he
    rw [Exec.newString, he]
    exact ⟨_, rfl⟩

/-- A text is read as a number exactly if it is a numeral of the base, which must be one from 2 to 36, and the number is
in the range of its type; otherwise the text is reported. A number that a builder writes is read again. -/
theorem numerals_read (w : World) (s : State) :
    (∀ (c : Call) (id : Nat) (text : Units), c.arguments[0]? = some (.ref id) →
      s.heap.contents? id = some (.string text) →
        ((parseLong c).ReadsNumber w s text fun v => ∃ x : Int64, v = .long x ∧ IsNumeral 10 text x.toInt) ∧
        ((parseInt c).ReadsNumber w s text fun v => ∃ x : Int32, v = .int x ∧ IsNumeral 10 text x.toInt) ∧
        ∀ radix : Int32, c.arguments[1]? = some (.int radix) →
          (parseLongRadix c).ReadsNumber w s text fun v => (2 ≤ radix.toInt ∧ radix.toInt ≤ 36) ∧
            ∃ x : Int64, v = .long x ∧ IsNumeral radix.toInt.toNat text x.toInt) ∧
    ∀ (id : Nat) (n : Int32), s.heap.contents? id = some (.builder #[]) →
      if s.heap.HasRoom 1 then ∃ t, reread (.ref id) n w s = .ok (.int n) t
      else ∃ t, reread (.ref id) n w s = .error (.error (.emulation (.heapLimit s.heap.limit))) t :=
  ⟨fun _ _ _ harg hid => ⟨readsNumber_parseLong harg hid w, readsNumber_parseInt harg hid w,
    fun _ hradix => readsNumber_parseLongRadix harg hradix hid w⟩, fun _ n hid => reread_apply hid n w⟩

def parseLongCall (radix : Int32) : Call :=
  .onClass ⟨"java/lang/Long", "parseLong", "(Ljava/lang/String;I)J"⟩ [.ref 0, .int radix]

/-- The text "-80" in base 16, and the least `int`. -/
theorem numerals_read_negative :
    ∃ (s : State) (t : State), s.heap.contents? 0 = some (.string (ofString "-80")) ∧
      parseLongRadix (parseLongCall 16) ⟨.empty, .standard, none, [], .still 0⟩ s = .ok (.long (-128)) s ∧
      reread (.ref 1) (-0x80000000) ⟨.empty, .standard, none, [], .still 0⟩ s = .ok (.int (-0x80000000)) t := by
  obtain ⟨hread, hreread⟩ := numerals_read ⟨.empty, .standard, none, [], .still 0⟩
    (.ofPayloads [.string (ofString "-80"), .builder #[]])
  have hnumeral : IsNumeral 16 (ofString "-80") (-128) :=
    .minus ⟨by decide, [8, 0], .cons (.decimal (d := 8) (by decide)) (.cons (.decimal (d := 0) (by decide)) .nil),
      by decide, rfl⟩
  obtain ⟨-, -, hradix⟩ := hread (parseLongCall 16) 0 (ofString "-80") rfl rfl
  obtain ⟨t, ht⟩ := hreread 1 (-0x80000000) rfl
  exact ⟨_, t, rfl, ((hradix 16 rfl).result _ _).2 ⟨⟨by decide, _, rfl, hnumeral⟩, rfl⟩, ht⟩

end

end Jvm
