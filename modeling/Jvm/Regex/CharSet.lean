import Jvm.Text.CaseFold
import Jvm.Text.CharClass

/-!
# Sets of characters

A set is kept as ranges of code points in order, none of which overlap or touch, so equal sets of
characters have equal ranges.
-/

namespace Jvm

/-- A set of characters, as ranges of code points. -/
structure CharSet where
  ranges : List (Nat × Nat)
deriving DecidableEq, Repr, Inhabited

namespace CharSet

def contains (s : CharSet) (c : Char) : Bool := Text.inRanges c.toNat s.ranges

def none : CharSet := ⟨[]⟩

/-- Puts a range in front of others that begin no earlier; those that it meets become part of it. -/
def join (r : Nat × Nat) : List (Nat × Nat) → List (Nat × Nat)
  | [] => [r]
  | s :: rest => if s.1 ≤ r.2 + 1 then join (r.1, max r.2 s.2) rest else r :: s :: rest

def ofRanges (rs : List (Nat × Nat)) : CharSet :=
  ⟨(rs.mergeSort fun a b => a.1 ≤ b.1).foldr join []⟩

def range (first last : Char) : CharSet := ⟨[(first.toNat, last.toNat)]⟩

def single (c : Char) : CharSet := range c c

def space : CharSet := ⟨Text.spaceRanges⟩

def digit : CharSet := ⟨Text.digitRanges⟩

def word : CharSet := ⟨Text.wordRanges⟩

def ascii : CharSet := ⟨[(0, 0x7f)]⟩

/-- The set has no members but characters of ASCII. -/
def isAscii (s : CharSet) : Bool := s.ranges.all (·.2 ≤ 0x7f)

/-- The only member, if there is just one. -/
def only? (s : CharSet) : Option Char :=
  match s.ranges with
  | [(first, last)] => if first = last then some (Char.ofNat first) else Option.none
  | _ => Option.none

def union (a b : CharSet) : CharSet := ofRanges (a.ranges ++ b.ranges)

/-! ### Complement and difference -/

/-- The last code point. -/
def lastCode : Nat := 0x10ffff

/-- The next character's number; no character has the number of a surrogate. -/
def after (n : Nat) : Nat := if n = 0xd7ff then 0xe000 else n + 1

def before (n : Nat) : Nat := if n = 0xe000 then 0xd7ff else n - 1

/-- The gap between two numbers. Two ranges that have only surrogates between them leave a gap of the
two characters beside the surrogates. -/
def gap (first last : Nat) : Nat × Nat := if first ≤ last then (first, last) else (last, first)

/-- The gaps behind a range that ends with `last`. -/
def gapsAfter (last : Nat) : List (Nat × Nat) → List (Nat × Nat)
  | [] => if last < lastCode then [(after last, lastCode)] else []
  | r :: rest => gap (after last) (before r.1) :: gapsAfter r.2 rest

/-- The characters that are not in the set. -/
def compl (s : CharSet) : CharSet :=
  match s.ranges with
  | [] => ⟨[(0, lastCode)]⟩
  | r :: rest => ⟨(if 0 < r.1 then [(0, before r.1)] else []) ++ gapsAfter r.2 rest⟩

/-- What a range and another one have in common. -/
def overlap (r s : Nat × Nat) : Option (Nat × Nat) :=
  if max r.1 s.1 ≤ min r.2 s.2 then some (max r.1 s.1, min r.2 s.2) else Option.none

def inter (a b : CharSet) : CharSet := ⟨a.ranges.flatMap fun r => b.ranges.filterMap (overlap r)⟩

/-- What is left of a range without another one. -/
def cut (r s : Nat × Nat) : List (Nat × Nat) :=
  if s.2 < r.1 ∨ r.2 < s.1 then [r]
  else
    (if r.1 < s.1 then [(r.1, before s.1)] else []) ++ (if s.2 < r.2 then [(after s.2, r.2)] else [])

/-- The members of `a` that are not in `b`. -/
def diff (a b : CharSet) : CharSet :=
  ⟨b.ranges.foldl (fun rs s => rs.flatMap (cut · s)) a.ranges⟩

def symmDiff (a b : CharSet) : CharSet := diff (union a b) (inter a b)

/-! ### Letter case -/

/-- All characters that differ at most in case from a given one. -/
def caseForms (c : Char) : CharSet := ofRanges ((Text.caseForms c.toNat).map fun n => (n, n))

/-- All characters that differ at most in case from one of the set. -/
def folded (s : CharSet) : CharSet :=
  let touched := Text.foldPairs.filter fun p =>
    Text.inRanges p.1 s.ranges || Text.inRanges p.2 s.ranges
  let heads := ofRanges (touched.map fun p => (p.2, p.2))
  let forms := Text.foldPairs.filter fun p => Text.inRanges p.2 heads.ranges
  ofRanges (s.ranges ++ heads.ranges ++ forms.map fun p => (p.1, p.1))

/-- The set with the other case of its letters of ASCII. -/
def foldedAscii (s : CharSet) : CharSet :=
  let moved (first last : Nat) (move : Nat → Nat) :=
    s.ranges.filterMap fun r => (overlap r (first, last)).map fun o => (move o.1, move o.2)
  ofRanges (s.ranges ++ moved 0x41 0x5a (· + 0x20) ++ moved 0x61 0x7a (· - 0x20))

end CharSet

end Jvm
