import Jvm.Regex.Footprint
import Jvm.Regex.Parser

/-!
# Automata

The automaton of an expression reads a text one character at a time. A fork lists its ways out in the
order of preference. A repetition whose rounds may be empty is one fork behind each round and one in
front of all, so a round that takes nothing ends it.
-/

namespace Jvm.Regex

/-- What an automaton does in a state. -/
inductive State where
  | read (set : CharSet) (next : Nat)
  | test (p : Place) (next : Nat)
  | fork (nexts : List Nat)
  | accept
deriving DecidableEq, Repr

/-- States by their number. -/
abbrev States := Array State

/-- An automaton and the state that it starts in. -/
structure Automaton where
  states : States
  start : Nat
deriving DecidableEq, Repr

/-- Makes the states of a part, in front of a given state: the number of the first one, and all states. -/
abbrev Build := Nat → States → Nat × States

namespace Build

def push (s : State) (states : States) : Nat × States := (states.size, states.push s)

/-- A fork that prefers the first of two ways, or the second one if it is not greedy. -/
def forkOf (greedy : Bool) (first second : Nat) : State :=
  .fork (if greedy then [first, second] else [second, first])

def literal : List Char → Build
  | [], next, states => (next, states)
  | c :: rest, next, states =>
    let (next, states) := literal rest next states
    push (.read (.single c) next) states

def copies (part : Build) : Nat → Build
  | 0, next, states => (next, states)
  | n + 1, next, states =>
    let (next, states) := part next states
    copies part n next states

/-- A part that may be left out, several times, each inside the one before; `last` is where leaving out
leads. -/
def optional (part : Build) (greedy : Bool) (last : Nat) : Nat → Build
  | 0, next, states => (next, states)
  | n + 1, next, states =>
    let (first, states) := part next states
    let (next, states) := push (forkOf greedy first last) states
    optional part greedy last n next states

/-- A part at least once: a fork behind it leads back. The second result is the first state of the part
and the third one the way on. -/
def again (part : Build) (greedy : Bool) (next : Nat) (states : States) : Nat × Nat × States :=
  -- the fork stands in front of the part that leads back to it, and is filled in when the part is known
  let (loop, states) := push .accept states
  let (first, states) := part loop states
  (loop, first, states.setIfInBounds loop (forkOf greedy first next))

/-- A part that is repeated without an upper bound; `taking` tells that it takes a character at least. -/
def endless (part : Build) (greedy taking : Bool) (least : Nat) : Build := fun next states =>
  let (loop, first, states) := again part greedy next states
  match least with
  | 0 => if taking then (loop, states) else push (forkOf greedy first next) states
  | n + 1 => copies part n first states

end Build

mutual

def build : Regex → Build
  | .empty, next, states => (next, states)
  | .literal text, next, states => Build.literal text next states
  | .chars set, next, states => Build.push (.read set next) states
  | .place p, next, states => Build.push (.test p next) states
  | .group r, next, states => build r next states
  | .rounds r least most greedy, next, states =>
    match most with
    | none => Build.endless (build r) greedy ((minLength r).any (0 < ·)) least next states
    | some most =>
      let (next, states) := Build.optional (build r) greedy next (most - least) next states
      Build.copies (build r) least next states
  | .row parts, next, states => buildRow parts next states
  | .alt branches, next, states =>
    let (firsts, states) := buildBranches branches next states
    Build.push (.fork firsts) states

def buildRow : List Regex → Build
  | [], next, states => (next, states)
  | r :: rest, next, states =>
    let (next, states) := buildRow rest next states
    build r next states

/-- The states of branches, and the first state of each. -/
def buildBranches : List Regex → Nat → States → List Nat × States
  | [], _, states => ([], states)
  | r :: rest, next, states =>
    let (first, states) := build r next states
    let (firsts, states) := buildBranches rest next states
    (first :: firsts, states)

end

def toAutomaton (r : Regex) : Automaton :=
  let (start, states) := build r 0 #[.accept]
  ⟨states, start⟩

/-- Reads an expression that is small enough to be searched for. -/
def compile? (s : String) : Option Automaton := do
  let r ← ofString? s
  if fits r then return r.toAutomaton else none

end Jvm.Regex
