import Jvm.Regex.Basic
import Jvm.Regex.ByteRange
import Std.Data.HashMap

/-!
# How large an expression may be

An expression counts as too large if an automaton for it that reads bytes, forward or backward, takes
more than ten mebibytes. States are numbered in the order in which they are made; each takes 32 bytes,
a fork four more for every way out and a choice between ranges of bytes eight for every range. States of
a set of characters that agree in all ways out are made once, as far as a table with a fixed number of
slots remembers them: a state is found by its slot only, and a newer one takes the place of an older one.
-/

namespace Jvm.Regex

/-- The states that have been made, and the bytes of their lists. -/
structure Footprint where
  states : Nat := 0
  lists : Nat := 0

/-- The most bytes that an automaton may take. -/
def mostBytes : Nat := 0xa00000

/-- Measuring ends as soon as the automaton is too large. -/
abbrev Meter := StateT Footprint Option

namespace Meter

/-- States that are made without lists, and bytes that lists grow by. -/
def spend (states lists : Nat) : Meter Unit := fun s =>
  let s : Footprint := ⟨s.states + states, s.lists + lists⟩
  if 32 * s.states + s.lists ≤ mostBytes then some ((), s) else none

/-- A state that holds no list. -/
def state : Meter Unit := spend 1 0

/-- A fork that is made before its ways out. -/
def fork : Meter Unit := spend 1 0

/-- A choice between ranges of bytes. -/
def choice (ranges : Nat) : Meter Unit := spend 1 (8 * ranges)

/-- A way out of a fork. -/
def wayOut : Meter Unit := spend 0 4

/-- A way out of the last state of a part, which takes space only if that is a fork. -/
def leave (isFork : Bool) : Meter Unit := if isFork then wayOut else pure ()

end Meter

/-! ### Sets of characters -/

/-- The states of a set that are remembered, by their slot. -/
structure Memory where
  slots : Nat
  entries : Std.HashMap Nat (List Nat × Nat) := {}

namespace Memory

/-- The slot of a state with given ways out: its numbers mixed by multiplication and exclusive or. -/
def slot (m : Memory) (key : List Nat) : Nat :=
  (key.foldl (fun (h : UInt64) n => (h ^^^ n.toUInt64) * 1099511628211) 14695981039346656037).toNat %
    m.slots

/-- The number of the state with these ways out, if it is remembered. -/
def find? (m : Memory) (key : List Nat) : Option Nat :=
  match m.entries[m.slot key]? with
  | some (found, number) => if found = key then some number else none
  | none => none

/-- Remembers a state. -/
def insert (m : Memory) (key : List Nat) (number : Nat) : Memory :=
  { m with entries := m.entries.insert (m.slot key) (key, number) }

end Memory

/-- Measuring the states of one set. -/
abbrev SetMeter := StateT Memory Meter

/-- The number of the state with given ways out, which is made unless it is remembered. -/
def stateWith (key : List Nat) (make : Meter Unit) : SetMeter Nat := do
  match (← get).find? key with
  | some number => return number
  | none =>
    let number := (← getThe Footprint).states
    make
    modify (·.insert key number)
    return number

/-- A choice that is not finished: its ways out so far, newest first, and the range that leads to the
state behind it. -/
structure Pending where
  done : List (ByteRange × Nat) := []
  last : ByteRange

/-- The ways out of a choice whose last one leads to a state. -/
def Pending.close (p : Pending) (next : Nat) : List (ByteRange × Nat) := (p.last, next) :: p.done

/-- The number of a choice with given ways out, newest first. -/
def finishChoice (ways : List (ByteRange × Nat)) : SetMeter Nat :=
  let key := ways.foldl (fun key w => w.1.1 :: w.1.2 :: w.2 :: key) []
  stateWith key (Meter.choice ways.length)

/-- Finishes the choices of a path, the innermost first. -/
def finishPath (goal : Nat) : List Pending → SetMeter Nat
  | [] => return goal
  | p :: rest => do finishChoice (p.close (← finishPath goal rest))

/-- Adds a product of ranges to a path; what is not shared with it is finished. -/
def extendPath (goal : Nat) : List Pending → List ByteRange → SetMeter (List Pending)
  | p :: rest, r :: rs =>
    if p.last = r then do return p :: (← extendPath goal rest rs)
    else do
      let next ← finishPath goal rest
      return ⟨p.close next, r⟩ :: rs.map fun r => { last := r }
  | _, rs => return rs.map fun r => { last := r }

/-- A set that is read forward: products of ranges that begin alike share the choices. -/
def measureForward (products : List (List ByteRange)) : Meter Unit := do
  let goal := (← get).states
  Meter.state
  let finish : SetMeter Unit := do
    let path ← products.foldlM (extendPath goal) []
    discard (finishPath goal path)
  discard (finish.run { slots := 10000 })

/-- The states of a product of ranges that is read backward. -/
def backwardProduct (goal : Nat) (product : List ByteRange) : SetMeter Nat :=
  product.foldlM (fun next r => stateWith [next, r.1, r.2] Meter.state) goal

/-- A set that is read backward: a fork leads to the products, which share states at their end. -/
def measureBackward (products : List (List ByteRange)) : Meter Unit := do
  Meter.fork
  let goal := (← get).states
  Meter.state
  let products : SetMeter Unit := products.forM fun product => do
    discard (backwardProduct goal product)
    Meter.wayOut
  discard (products.run { slots := 1000 })

/-- A set of characters. -/
def measureSet (backward : Bool) (set : CharSet) : Meter Unit :=
  if set.isAscii then do
    Meter.state
    Meter.choice set.ranges.length
  else
    let products := set.ranges.flatMap byteProducts
    if backward then measureBackward products else measureForward products

/-! ### Words side by side -/

/-- Cuts a list of words at the empty ones. -/
def cutAtEmpty : List (List Nat) → List (List (List Nat))
  | [] => [[]]
  | [] :: rest => [] :: cutAtEmpty rest
  | w :: rest =>
    match cutAtEmpty rest with
    | [] => [[w]]
    | chunk :: chunks => (w :: chunk) :: chunks

/-- The words of a place in a tree, cut where one of them ends; several that end at once in front of all
others count once. -/
def chunksOf (words : List (List Nat)) : List (List (List Nat)) :=
  match words with
  | [] :: rest => [] :: cutAtEmpty (rest.dropWhile (·.isEmpty))
  | words => cutAtEmpty words

/-- What comes behind a byte in those words that begin with it. -/
def wordsBehind (byte : Nat) (words : List (List Nat)) : List (List Nat) :=
  words.filterMap fun w =>
    match w with
    | b :: rest => if b = byte then some rest else none
    | [] => none

/-- Measures a tree of words. A place where no word goes on has no states of its own; any other one has a
choice for each chunk, and a fork that leads to the chunks and, between them, to the end. No word may be
longer than `fuel`. -/
def measureTree : Nat → List (List Nat) → Meter Unit
  | 0, _ => pure ()
  | fuel + 1, words =>
    if words.all (·.isEmpty) then pure ()
    else do
      let chunks := chunksOf words
      chunks.forM fun chunk => do
        let heads := (chunk.filterMap (·.head?)).eraseDups
        heads.forM fun byte => measureTree fuel (wordsBehind byte chunk)
        match heads with
        | [] => pure ()
        | [_] => Meter.state
        | heads => Meter.choice heads.length
      Meter.fork
      Meter.spend 0 (4 * ((chunks.filter (!·.isEmpty)).length + (chunks.length - 1)))

/-- The bytes of a word in the order in which they are read. -/
def wordBytes (backward : Bool) (word : List Char) : List Nat :=
  let bytes := word.flatMap fun c => utf8Bytes c.toNat
  if backward then bytes.reverse else bytes

/-- Alternatives that are words. -/
def measureWords (backward : Bool) (words : List (List Char)) : Meter Unit := do
  let words := words.map (wordBytes backward)
  Meter.state
  measureTree (words.foldl (fun n w => max n w.length) 0) words

def literal? : Regex → Option (List Char)
  | literal text => some text
  | _ => none

/-! ### Expressions

Measuring a part tells whether its last state is a fork, which grows when the part is left. -/

/-- A part several times in a row; `last` tells of the one before, if there is one. -/
def measureCopies (part : Meter Bool) : Nat → Option Bool → Meter Bool
  | 0, some isFork => return isFork
  | 0, none => do
    Meter.state
    return false
  | n + 1, last => do
    let isFork ← part
    Meter.leave (last.getD false)
    measureCopies part n (some isFork)

/-- A part that may be left out, several times, each inside the one before. -/
def measureOptional (part : Meter Bool) : Nat → Bool → Meter Unit
  | 0, last => Meter.leave last
  | n + 1, last => do
    Meter.fork
    let isFork ← part
    Meter.leave last
    Meter.wayOut
    Meter.wayOut
    measureOptional part n isFork

/-- A part that is repeated without an upper bound. -/
def measureEndless (part : Meter Bool) (taking : Bool) : Nat → Meter Bool
  | 0 => do
    if taking then
      Meter.fork
      Meter.leave (← part)
      Meter.wayOut
      return true
    else
      let isFork ← part
      Meter.fork
      Meter.leave isFork
      Meter.fork
      Meter.state
      Meter.spend 0 16
      return false
  | 1 => do
    let isFork ← part
    Meter.fork
    Meter.leave isFork
    Meter.wayOut
    return true
  | n + 1 => do
    let before ← measureCopies part n none
    let isFork ← part
    Meter.fork
    Meter.leave before
    Meter.leave isFork
    Meter.wayOut
    return true

/-- A repeated part; `taking` tells that it takes a character at least. -/
def measureRounds (part : Meter Bool) (taking : Bool) (least : Nat) (most : Option Nat) : Meter Bool := do
  match most with
  | none => measureEndless part taking least
  | some most =>
    if least = 0 ∧ most = 1 then
      Meter.fork
      let isFork ← part
      Meter.state
      Meter.spend 0 8
      Meter.leave isFork
      return false
    else
      let last ← measureCopies part least none
      if least = most then return last
      else
        Meter.state
        measureOptional part (most - least) last
        return false

mutual

/-- Measures an expression that is read forward or backward. -/
def measure (backward : Bool) : Regex → Meter Bool
  | empty | place _ => do
    Meter.state
    return false
  | literal text => do
    Meter.spend (wordBytes backward text).length 0
    return false
  | chars set => do
    measureSet backward set
    return false
  | group r => do
    if backward then measure backward r
    else
      Meter.state
      let isFork ← measure backward r
      Meter.state
      Meter.leave isFork
      return false
  | rounds r least most _ =>
    measureRounds (measure backward r) ((minLength r).any (0 < ·)) least most
  | row parts => do
    if backward then return (← measureBack backward parts).getD false
    else measureRow backward parts none
  | alt branches => do
    match branches.mapM literal? with
    | some words => measureWords backward words
    | none => measureBranches backward branches
    return false

/-- Measures the parts of a row from the front; `last` tells of the part before. -/
def measureRow (backward : Bool) : List Regex → Option Bool → Meter Bool
  | [], last => return last.getD false
  | r :: rest, last => do
    let isFork ← measure backward r
    Meter.leave (last.getD false)
    measureRow backward rest (some isFork)

/-- Measures the parts of a row from the end, and tells of the first one. -/
def measureBack (backward : Bool) : List Regex → Meter (Option Bool)
  | [] => return none
  | r :: rest => do
    let last ← measureBack backward rest
    let isFork ← measure backward r
    Meter.leave (last.getD false)
    return some isFork

/-- Measures branches: the fork is made behind the first two. -/
def measureBranches (backward : Bool) : List Regex → Meter Unit
  | [] => pure ()
  | [r] => discard (measure backward r)
  | r :: s :: rest => do
    let first ← measure backward r
    let second ← measure backward s
    Meter.fork
    Meter.state
    Meter.spend 0 8
    Meter.leave first
    Meter.leave second
    measureMore backward rest

def measureMore (backward : Bool) : List Regex → Meter Unit
  | [] => pure ()
  | r :: rest => do
    let isFork ← measure backward r
    Meter.wayOut
    Meter.leave isFork
    measureMore backward rest

end

mutual

/-- Every match begins at the start of the text, or ends at its end if the text is read backward, since a
part that takes no characters says so. -/
def isBound (backward : Bool) : Regex → Bool
  | place p => p == if backward then .textEnd else .textStart
  | group r => isBound backward r
  | rounds r least _ _ => 0 < least && isBound backward r
  | row parts => if backward then isBoundBack backward parts else isBoundRow backward parts
  | alt branches => areBound backward branches
  | empty | literal _ | chars _ => false

/-- A row is bound by one of its first parts. -/
def isBoundRow (backward : Bool) : List Regex → Bool
  | [] => false
  | r :: rest => isBound backward r || (isHollow r && isBoundRow backward rest)

/-- A row is bound by one of its last parts. -/
def isBoundBack (backward : Bool) : List Regex → Bool
  | [] => false
  | r :: rest => isBoundBack backward rest || (areHollow rest && isBound backward r)

/-- All branches are bound. -/
def areBound (backward : Bool) : List Regex → Bool
  | [] => true
  | r :: rest => isBound backward r && areBound backward rest

end

/-- Measures an automaton that finds an expression. It begins with a loop over any bytes, unless matches
are bound; read forward, it notes both ends of a match. -/
def measureSearch (backward : Bool) (r : Regex) : Meter Unit := do
  let bound := isBound backward r
  if bound then Meter.state
  else
    Meter.fork
    Meter.state
    Meter.choice 1
    Meter.spend 0 8
  let isFork ← measure backward (if backward then r else group r)
  Meter.state
  Meter.leave isFork

/-- The expression is not too large to be searched for. -/
def fits (r : Regex) : Bool :=
  [false, true].all fun backward => ((measureSearch backward r).run {}).isSome

end Jvm.Regex
