import Jvm.Regex.Automaton

/-!
# Searching

An automaton reads a text in all states at once. The states that may read the next character are kept in
the order of preference, each once: of two ways that lead to the same state at the same place only the
preferred one counts. The search begins anew at every place until there is a match, behind the states
that have begun before. A state that accepts ends all less preferred ones.
-/

namespace Jvm.Regex

/-- A state that a search has reached, and the place where it began. -/
structure Thread where
  state : Nat
  origin : Nat

/-- The states reached at one place, the preferred one first. -/
structure Front where
  /-- For each state one more than the last place where it was reached. -/
  seen : Array Nat
  threads : Array Thread := #[]

namespace Automaton

/-- The number of steps that reaching states at one place may take. -/
def steps (m : Automaton) : Nat :=
  m.states.foldl (fun n s => match s with | .fork nexts => n + nexts.length | _ => n + 1) 1

/-- Reaches the states of `todo`, and all that they lead to at the same place `i`. Forks and tests are
passed, and a state that has been reached is not reached again. -/
def reach (m : Automaton) (text : Array Char) (i origin : Nat) :
    Nat → List Nat → Array Nat → Array Thread → Front
  | 0, _, seen, threads => ⟨seen, threads⟩
  | _, [], seen, threads => ⟨seen, threads⟩
  | fuel + 1, s :: todo, seen, threads =>
    if seen.getD s 0 = i + 1 then reach m text i origin fuel todo seen threads
    else
      let seen := seen.setIfInBounds s (i + 1)
      match m.states[s]? with
      | some (.fork nexts) => reach m text i origin fuel (nexts ++ todo) seen threads
      | some (.test p next) =>
        let before := if i = 0 then none else text[i - 1]?
        let todo := if p.holds before text[i]? then next :: todo else todo
        reach m text i origin fuel todo seen threads
      | some _ => reach m text i origin fuel todo seen (threads.push ⟨s, origin⟩)
      | none => reach m text i origin fuel todo seen threads

/-- Lets threads read the character at place `i`; the result holds those that go on at the next place.
The match of a thread that accepts takes the place of the one found before, and threads behind it end. -/
def advance (m : Automaton) (steps : Nat) (text : Array Char) (i : Nat) :
    List Thread → Option (Nat × Nat) → Front → Option (Nat × Nat) × Front
  | [], found, front => (found, front)
  | t :: rest, found, front =>
    match m.states[t.state]? with
    | some .accept => (some (t.origin, i), front)
    | some (.read set next) =>
      let front :=
        if text[i]?.any set.contains then m.reach text (i + 1) t.origin steps [next] front.seen front.threads
        else front
      advance m steps text i rest found front
    | _ => advance m steps text i rest found front

/-- Searches from place `i` on, `count` places at most. -/
def searchFrom (m : Automaton) (steps : Nat) (text : Array Char) :
    Nat → Nat → Option (Nat × Nat) → Front → Option (Nat × Nat)
  | 0, _, found, _ => found
  | count + 1, i, found, front =>
    let front := if found.isNone then m.reach text i i steps [m.start] front.seen front.threads else front
    if front.threads.isEmpty && found.isSome then found
    else
      let threads := front.threads.toList
      let (found, front) := m.advance steps text i threads found ⟨front.seen, #[]⟩
      searchFrom m steps text count (i + 1) found front

/-- The first match that begins at or behind a place: its start and its end. -/
def find? (m : Automaton) (text : Array Char) (start : Nat) : Option (Nat × Nat) :=
  m.searchFrom m.steps text (text.size + 1 - start) start none { seen := Array.replicate m.states.size 0 }

/-- All matches from the left that do not overlap, when the search goes on at `start` and the match
before ended at `last`. A match without characters may not stand where another one ended. -/
def spansFrom (m : Automaton) (text : Array Char) : Nat → Nat → Option Nat → List (Nat × Nat)
  | 0, _, _ => []
  | fuel + 1, start, last =>
    let found :=
      match m.find? text start with
      | some (s, e) => if s = e ∧ last = some e then m.find? text (start + 1) else some (s, e)
      | none => none
    match found with
    | some (s, e) => (s, e) :: spansFrom m text fuel e (some e)
    | none => []

/-- All matches from the left that do not overlap. -/
def spans (m : Automaton) (text : Array Char) : List (Nat × Nat) :=
  m.spansFrom text (2 * text.size + 2) 0 none

end Automaton

end Jvm.Regex

namespace Jvm.Text

/-- The pieces of a text between spans, when the text begins at place `start`. -/
def piecesBetween (start : Nat) (text : List Char) : List (Nat × Nat) → List (List Char)
  | [] => [text]
  | (s, e) :: rest => text.take (s - start) :: piecesBetween e (text.drop (e - start)) rest

/-- The list without the empty ones at its end. -/
def dropEmptyEnd (parts : List (List Char)) : List (List Char) :=
  (parts.reverse.dropWhile (·.isEmpty)).reverse

/-- Splits a text at spans: without a span that ends behind the front, the whole text is the only
piece; else empty pieces at the end are left out. -/
def splitAt (text : List Char) (spans : List (Nat × Nat)) : List (List Char) :=
  match spans.filter (·.2 != 0) with
  | [] => [text]
  | spans => dropEmptyEnd (piecesBetween 0 text spans)

/-- Splits a text at the matches of an automaton. -/
def splitOn (text : String) (m : Regex.Automaton) : List String :=
  let chars := text.toList
  (splitAt chars (m.spans chars.toArray)).map String.ofList

end Jvm.Text
