import Jvm.Regex.CharSet

/-!
# Regular expressions

Expressions in a simplified form, and the operations that keep them in it: a row holds no row, no empty
part and no two literals side by side; alternatives hold no alternatives, are not all single characters
or sets, and do not all begin with the same part of a row.
-/

namespace Jvm

/-- A condition on a place in a text. -/
inductive Place where
  | textStart
  | textEnd
  /-- Behind a line feed or at the start; with `crlf`, carriage returns separate lines as well. -/
  | lineStart (crlf : Bool)
  | lineEnd (crlf : Bool)
  /-- Between a character of a word and something else. -/
  | wordBoundary (letters : CharSet)
  | noWordBoundary (letters : CharSet)
  | wordStart (letters : CharSet)
  | wordEnd (letters : CharSet)
  /-- Whatever comes next, no character of a word stands before. -/
  | wordStartHalf (letters : CharSet)
  | wordEndHalf (letters : CharSet)
deriving DecidableEq, Repr

namespace Place

/-- The condition holds between two characters; at an end of the text there is none. -/
def holds (p : Place) (before after : Option Char) : Bool :=
  match p with
  | textStart => before.isNone
  | textEnd => after.isNone
  | lineStart false => before.isNone || before == some '\n'
  | lineStart true => before.isNone || before == some '\n' || (before == some '\r' && after != some '\n')
  | lineEnd false => after.isNone || after == some '\n'
  | lineEnd true => after.isNone || after == some '\r' || (after == some '\n' && before != some '\r')
  | wordBoundary w => before.any w.contains != after.any w.contains
  | noWordBoundary w => before.any w.contains == after.any w.contains
  | wordStart w => !before.any w.contains && after.any w.contains
  | wordEnd w => before.any w.contains && !after.any w.contains
  | wordStartHalf w => !before.any w.contains
  | wordEndHalf w => !after.any w.contains

end Place

/-- A regular expression. -/
inductive Regex where
  | empty
  /-- These characters, of which there is one at least. -/
  | literal (text : List Char)
  /-- A character of the set; without members it never matches. -/
  | chars (set : CharSet)
  | place (p : Place)
  /-- A numbered group. -/
  | group (r : Regex)
  /-- `least` rounds or more, up to `most` if there is a bound. -/
  | rounds (r : Regex) (least : Nat) (most : Option Nat) (greedy : Bool)
  | row (parts : List Regex)
  /-- Any of the branches, an earlier one preferred. -/
  | alt (branches : List Regex)
deriving Inhabited

namespace Regex

/-! ### Lengths of matches -/

mutual

/-- The least number of characters of a match; there is none for what never matches. -/
def minLength : Regex → Option Nat
  | empty | place _ => some 0
  | literal text => some text.length
  | chars set => if set.ranges.isEmpty then none else some 1
  | group r => minLength r
  | rounds r least _ _ => (minLength r).map (least * ·)
  | row parts => minLengthRow parts
  | alt branches => minLengthAlt branches

/-- The sum of the least numbers. -/
def minLengthRow : List Regex → Option Nat
  | [] => some 0
  | r :: rest => do return (← minLength r) + (← minLengthRow rest)

/-- The least of the least numbers, if there is one for each. -/
def minLengthAlt : List Regex → Option Nat
  | [] => none
  | [r] => minLength r
  | r :: rest => do return min (← minLength r) (← minLengthAlt rest)

end

mutual

/-- A match takes no characters, whatever the text. -/
def isHollow : Regex → Bool
  | empty | place _ => true
  | literal _ | chars _ => false
  | group r => isHollow r
  | rounds r _ most _ => most.isSome && isHollow r
  | row parts => areHollow parts
  | alt branches => areHollow branches

/-- All of them are hollow. -/
def areHollow : List Regex → Bool
  | [] => true
  | r :: rest => isHollow r && areHollow rest

end

/-! ### Equal expressions -/

mutual

/-- The same expression on both sides. A numbered group is the same as no other. -/
def same : Regex → Regex → Bool
  | empty, empty => true
  | literal a, literal b => a == b
  | chars a, chars b => a == b
  | place p, place q => p == q
  | rounds r least most greedy, rounds s least' most' greedy' =>
    least == least' && most == most' && greedy == greedy' && same r s
  | row rs, row ss => sameList rs ss
  | alt rs, alt ss => sameList rs ss
  | _, _ => false

/-- The same expressions in the same order. -/
def sameList : List Regex → List Regex → Bool
  | [], [] => true
  | r :: rs, s :: ss => same r s && sameList rs ss
  | _, _ => false

end

/-! ### Simplified forms -/

/-- A character of a set; the only one of a set is a literal. -/
def ofSet (set : CharSet) : Regex :=
  match set.only? with
  | some c => literal [c]
  | none => chars set

/-- Puts a part in front of a row; literals side by side become one. -/
def joinRow (r : Regex) (rest : List Regex) : List Regex :=
  match r, rest with
  | literal a, literal b :: rest => literal (a ++ b) :: rest
  | r, rest => r :: rest

/-- The parts of a row; an empty expression has none. -/
def parts : Regex → List Regex
  | empty => []
  | row parts => parts
  | r => [r]

/-- One expression behind the other. -/
def ofRow (rs : List Regex) : Regex :=
  match (rs.flatMap parts).foldr joinRow [] with
  | [] => empty
  | [r] => r
  | rs => row rs

/-- An expression several times. More than one round of nothing is one round of it. -/
def ofRounds (r : Regex) (least : Nat) (most : Option Nat) (greedy : Bool) : Regex :=
  let (least, most) := if isHollow r then (min least 1, some ((most.map (min · 1)).getD 1)) else (least, most)
  if least = 0 ∧ most = some 0 then empty
  else if least = 1 ∧ most = some 1 then r
  else rounds r least most greedy

/-- The branches of alternatives. -/
def branches : Regex → List Regex
  | alt branches => branches
  | r => [r]

/-- The set of a single character. -/
def single? : Regex → Option CharSet
  | literal [c] => some (.single c)
  | _ => none

/-- The set of a character of a set. -/
def set? : Regex → Option CharSet
  | chars set => some set
  | _ => none

/-- Alternatives. Characters become a set, and so do sets. -/
def ofBranches (rs : List Regex) : Regex :=
  match rs.flatMap branches with
  | [] => chars .none
  | [r] => r
  | rs =>
    match rs.mapM single? <|> rs.mapM set? with
    | some sets => ofSet (.ofRanges (sets.flatMap (·.ranges)))
    | none => alt rs

/-- The number of parts that all rows begin with. -/
def commonParts (first : List Regex) (rest : List (List Regex)) : Nat :=
  rest.foldl
    (fun n row => ((first.zip row).take n).takeWhile (fun (r, s) => same r s) |>.length) first.length

/-- The parts of a row that has two or more. -/
def row? : Regex → Option (List Regex)
  | row parts => some parts
  | _ => none

/-- Alternatives in simplified form: what all branches begin with stands in front of them once. -/
def ofAlternatives (rs : List Regex) : Regex :=
  match ofBranches rs with
  | alt rs =>
    match rs.mapM row? with
    | some (first :: rest) =>
      match commonParts first rest with
      | 0 => alt rs
      | n => ofRow (first.take n ++ [ofBranches ((first :: rest).map fun row => ofRow (row.drop n))])
    | _ => alt rs
  | r => r

end Regex

end Jvm
