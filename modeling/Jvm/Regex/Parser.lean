import Jvm.Regex.Basic

/-!
# Written form of regular expressions

Reading an expression. Letters in groups such as `(?i)` set flags for the rest of the group that they
stand in; sets may be nested and combined with `&&`, `--` and `~~`. What is not well formed, what is
nested too deep, and what would need more than a pass over the text (references back and looking
around), has no meaning. Classes by a property of Unicode (`\p{..}` and `\P{..}`) are not read either,
for want of the tables.
-/

namespace Jvm.Regex

/-- What the letters of a flag group turn on. -/
structure Flags where
  caseless : Bool := false
  multiLine : Bool := false
  dotAll : Bool := false
  /-- Repetitions are lazy unless a question mark follows. -/
  swapGreed : Bool := false
  unicode : Bool := true
  crlf : Bool := false
  /-- Blanks and comments are skipped. -/
  blanks : Bool := false
deriving DecidableEq, Repr

/-- A flag turned on or off by its letter. -/
def Flags.set (f : Flags) (letter : Char) (on : Bool) : Option Flags :=
  match letter with
  | 'i' => some { f with caseless := on }
  | 'm' => some { f with multiLine := on }
  | 's' => some { f with dotAll := on }
  | 'U' => some { f with swapGreed := on }
  | 'u' => some { f with unicode := on }
  | 'R' => some { f with crlf := on }
  | 'x' => some { f with blanks := on }
  | _ => none

def skipBlanks (inComment : Bool) : List Char → List Char
  | [] => []
  | c :: rest =>
    if inComment then skipBlanks (c != '\n') rest
    else if Text.isSpace c then skipBlanks false rest
    else if c = '#' then skipBlanks true rest
    else c :: rest

def skip (f : Flags) (cs : List Char) : List Char := if f.blanks then skipBlanks false cs else cs

/-! ### Single characters and sets -/

def ofChars (rs : List (Char × Char)) : CharSet := .ofRanges (rs.map fun r => (r.1.toNat, r.2.toNat))

/-- The sets of the letters d, s and w. -/
def perlSet (f : Flags) (letter : Char) : CharSet :=
  if f.unicode then
    if letter = 'd' then .digit else if letter = 's' then .space else .word
  else if letter = 'd' then .range '0' '9'
  else if letter = 's' then ofChars [('\t', '\x0d'), (' ', ' ')]
  else ofChars [('0', '9'), ('A', 'Z'), ('a', 'z'), ('_', '_')]

/-- The set with the other case forms of its members, if case does not count. -/
def foldSet (f : Flags) (set : CharSet) : CharSet :=
  if !f.caseless then set else if f.unicode then set.folded else set.foldedAscii

/-- The complement of a set, which must be one of characters and not of bytes. -/
def complement? (f : Flags) (set : CharSet) : Option CharSet :=
  if f.unicode then some set.compl else none

/-- Something that a backslash introduces. -/
inductive Atom where
  | char (c : Char)
  | set (s : CharSet)
  | place (p : Place)

def hexDigit? (c : Char) : Option Nat :=
  if '0' ≤ c && c ≤ '9' then some (c.toNat - '0'.toNat)
  else if 'a' ≤ c && c ≤ 'f' then some (c.toNat - 'a'.toNat + 10)
  else if 'A' ≤ c && c ≤ 'F' then some (c.toNat - 'A'.toNat + 10)
  else none

/-- The character of a number, if it is one. -/
def charOfNat? (n : Nat) : Option Char := if n.isValidChar then some (Char.ofNat n) else none

/-- Reads `count` hexadecimal digits. -/
def hexDigits (f : Flags) : Nat → Nat → List Char → Option (Nat × List Char)
  | 0, n, cs => some (n, cs)
  | count + 1, n, cs =>
    match skip f cs with
    | [] => none
    | c :: rest => do hexDigits f count (n * 16 + (← hexDigit? c)) rest

/-- Reads hexadecimal digits up to a brace; `n` is the number so far. -/
def hexBrace (f : Flags) : Nat → Option Nat → List Char → Option (Nat × List Char)
  | 0, _, _ => none
  | fuel + 1, n, cs =>
    match skip f cs with
    | [] => none
    | '}' :: rest => n.map fun n => (n, rest)
    | c :: rest => do hexBrace f fuel (some (min (n.getD 0 * 16 + (← hexDigit? c)) 0x110000)) rest

/-- Reads a character by its number, of `count` digits or between braces. Without Unicode, two digits are
a byte, which must be one of ASCII. -/
def hexChar (f : Flags) (count : Nat) (cs : List Char) : Option (Char × List Char) := do
  match skip f cs with
  | '{' :: rest =>
    let (n, rest) ← hexBrace f (rest.length + 1) none rest
    return (← charOfNat? n, skip f rest)
  | cs =>
    let (n, rest) ← hexDigits f count 0 cs
    if !f.unicode && count == 2 && 0x80 ≤ n then none else return (← charOfNat? n, skip f rest)

/-- Characters that stand for themselves behind a backslash: all of ASCII but letters, digits and
angle brackets. -/
def isEscapable (c : Char) : Bool := c.toNat < 0x80 && !c.isAlphanum && c != '<' && c != '>'

/-- The characters that may stand in the name of a place in a word. -/
def isPlaceNameChar (c : Char) : Bool := c.isAlpha || c == '-'

/-- Takes the characters of a place name from the front. -/
def placeName (f : Flags) : Nat → List Char → List Char × List Char
  | 0, cs => ([], cs)
  | fuel + 1, cs =>
    match cs with
    | c :: rest =>
      if isPlaceNameChar c then
        let (name, rest) := placeName f fuel (skip f rest)
        (c :: name, rest)
      else ([], cs)
    | [] => ([], [])

/-- Reads what follows the escape of a word boundary: a brace with a name makes it one side of it. -/
def wordPlace (f : Flags) (cs : List Char) : Option (Place × List Char) :=
  let letters := perlSet f 'w'
  match cs with
  | '{' :: rest =>
    match skip f rest with
    | [] => none
    | c :: more =>
      if isPlaceNameChar c then
        let (name, rest) := placeName f (more.length + 2) (c :: more)
        match rest with
        | '}' :: rest =>
          match String.ofList name with
          | "start" => some (.wordStart letters, rest)
          | "end" => some (.wordEnd letters, rest)
          | "start-half" => some (.wordStartHalf letters, rest)
          | "end-half" => some (.wordEndHalf letters, rest)
          | _ => none
        | _ => none
      else some (.wordBoundary letters, cs)
  | _ => some (.wordBoundary letters, cs)

def escape (f : Flags) : List Char → Option (Atom × List Char)
  | [] => none
  | c :: rest =>
    match c with
    | 'x' => do let (c, rest) ← hexChar f 2 rest; return (.char c, rest)
    | 'u' => do let (c, rest) ← hexChar f 4 rest; return (.char c, rest)
    | 'U' => do let (c, rest) ← hexChar f 8 rest; return (.char c, rest)
    | 'd' | 's' | 'w' => some (.set (perlSet f c), rest)
    | 'D' | 'S' | 'W' => do return (.set (← complement? f (perlSet f c.toLower)), rest)
    | 'a' => some (.char '\x07', rest)
    | 'f' => some (.char '\x0c', rest)
    | 't' => some (.char '\t', rest)
    | 'n' => some (.char '\n', rest)
    | 'r' => some (.char '\r', rest)
    | 'v' => some (.char '\x0b', rest)
    | 'A' => some (.place .textStart, rest)
    | 'z' => some (.place .textEnd, rest)
    | 'b' => do let (p, rest) ← wordPlace f rest; return (.place p, rest)
    | 'B' => some (.place (.noWordBoundary (perlSet f 'w')), rest)
    | '<' => some (.place (.wordStart (perlSet f 'w')), rest)
    | '>' => some (.place (.wordEnd (perlSet f 'w')), rest)
    | c => if isEscapable c then some (.char c, rest) else none

def namedSet? : String → Option CharSet
  | "alnum" => some (ofChars [('0', '9'), ('A', 'Z'), ('a', 'z')])
  | "alpha" => some (ofChars [('A', 'Z'), ('a', 'z')])
  | "ascii" => some .ascii
  | "blank" => some (ofChars [('\t', '\t'), (' ', ' ')])
  | "cntrl" => some (ofChars [('\x00', '\x1f'), ('\x7f', '\x7f')])
  | "digit" => some (.range '0' '9')
  | "graph" => some (.range '!' '~')
  | "lower" => some (.range 'a' 'z')
  | "print" => some (.range ' ' '~')
  | "punct" => some (ofChars [('!', '/'), (':', '@'), ('[', '\x60'), ('\x7b', '~')])
  | "space" => some (ofChars [('\t', '\x0d'), (' ', ' ')])
  | "upper" => some (.range 'A' 'Z')
  | "word" => some (ofChars [('0', '9'), ('A', 'Z'), ('a', 'z'), ('_', '_')])
  | "xdigit" => some (ofChars [('0', '9'), ('A', 'F'), ('a', 'f')])
  | _ => none

/-- Reads a named set behind its opening bracket, such as the rest of `[:alpha:]`. -/
def namedClass? (f : Flags) (cs : List Char) : Option (CharSet × List Char) :=
  match cs with
  | ':' :: rest =>
    let (negated, rest) :=
      match rest with
      | '^' :: rest => (true, rest)
      | _ => (false, rest)
    match namedSet? (String.ofList (rest.takeWhile (· != ':'))), rest.dropWhile (· != ':') with
    | some set, ':' :: ']' :: rest =>
      let set := foldSet f set
      if negated then (complement? f set).map fun set => (set, rest) else some (set, rest)
    | _, _ => none
  | _ => none

/-- Reads a member of a set: a character or what a backslash introduces. -/
def classAtom (f : Flags) : List Char → Option (Atom × List Char)
  | [] => none
  | '\\' :: rest => escape f rest
  | c :: rest => some (.char c, rest)

/-- A range of characters; without Unicode it must be one of ASCII. -/
def rangeSet? (f : Flags) (first last : Char) : Option CharSet :=
  if last < first then none
  else if !f.unicode && 0x7f < last.toNat then none
  else some (.range first last)

def atomSet? (f : Flags) : Atom → Option CharSet
  | .char c => rangeSet? f c c
  | .set s => some s
  | .place _ => none

/-- Reads a member of a set or a range of members. -/
def classItem (f : Flags) (cs : List Char) : Option (CharSet × List Char) := do
  let (first, rest) ← classAtom f cs
  match skip f rest with
  | [] => none
  | '-' :: more =>
    match skip f more with
    | [] => none
    | c :: _ =>
      if c = ']' ∨ c = '-' then return (← atomSet? f first, skip f rest)
      else
        let (last, rest) ← classAtom f (skip f more)
        match first, last with
        | .char a, .char b => return (← rangeSet? f a b, rest)
        | _, _ => none
  | rest => return (← atomSet? f first, rest)

/-- An operation on two sets. -/
inductive SetOp where
  | inter
  | diff
  | symmDiff

/-- How deep expressions and sets may be nested. -/
def deepest : Nat := 250

/-- How deep several things are nested that stand side by side: one alone adds nothing. -/
def depthOfRow (depths : List Nat) : Nat :=
  match depths with
  | [] => 0
  | [d] => d
  | d :: rest => rest.foldl max d + 1

/-- Members of a set that is being read: their ranges so far, and how deep each member is nested. -/
structure Members where
  ranges : List (Nat × Nat) := []
  depths : List Nat := []

namespace Members

def push (m : Members) (set : CharSet) (depth : Nat) : Members :=
  ⟨set.ranges ++ m.ranges, depth :: m.depths⟩

def set (m : Members) : CharSet := .ofRanges m.ranges

end Members

/-- What stands in front of the members that are being read: a set, how deep it is nested, and an
operation. -/
abbrev Left := Option (CharSet × Nat × SetOp)

/-- The set and its depth, with the operation applied. The sides of an operation have all their case
forms, if case does not count. -/
def Left.combine (f : Flags) (left : Left) (right : Members) : CharSet × Nat :=
  let depth := depthOfRow right.depths
  match left with
  | none => (right.set, depth)
  | some (set, leftDepth, op) =>
    let a := foldSet f set
    let b := foldSet f right.set
    let all :=
      match op with
      | .inter => a.inter b
      | .diff => a.diff b
      | .symmDiff => a.symmDiff b
    (all, max leftDepth depth + 1)

/-- The hyphens at the front of a set, and a bracket there, are members. -/
def classFront (f : Flags) (cs : List Char) : Members × List Char :=
  let rec hyphens : Nat → Members → List Char → Members × List Char
    | 0, m, cs => (m, cs)
    | fuel + 1, m, cs =>
      match cs with
      | '-' :: rest => hyphens fuel (m.push (.single '-') 0) (skip f rest)
      | _ => (m, cs)
  match hyphens cs.length {} cs with
  | (⟨_, []⟩, ']' :: rest) => (({} : Members).push (.single ']') 0, skip f rest)
  | front => front

/-- Reads the start of a set behind its bracket: whether a caret negates it, and its first members. -/
def classStart (f : Flags) (cs : List Char) : Bool × Members × List Char :=
  match skip f cs with
  | '^' :: rest => (true, classFront f (skip f rest))
  | cs => (false, classFront f cs)

/-- A set whose closing bracket has been read, and how deep it is nested. -/
def classEnd (f : Flags) (negated : Bool) (m : Members) (left : Left) : Option (CharSet × Nat) := do
  let (all, depth) := left.combine f m
  let all := foldSet f all
  return (← if negated then complement? f all else some all, depth + 1)

/-- Reads members up to the closing bracket; `level` counts the sets that are open. Each round takes a
character, so `fuel` may be the length of the input. -/
def classRest (f : Flags) :
    Nat → Nat → Bool → Members → Left → List Char → Option ((CharSet × Nat) × List Char)
  | 0, _, _, _, _, _ => none
  | fuel + 1, level, negated, m, left, cs =>
    let operation (op : SetOp) (rest : List Char) :=
      let (set, depth) := left.combine f m
      classRest f fuel level negated {} (some (set, depth, op)) rest
    match skip f cs with
    | [] => none
    | ']' :: rest => (classEnd f negated m left).map fun set => (set, rest)
    | '[' :: rest =>
      match namedClass? f rest with
      | some (named, rest) => classRest f fuel level negated (m.push named 0) left rest
      | none =>
        if deepest ≤ level then none
        else do
          let (inner, front, rest) := classStart f rest
          let ((nested, depth), rest) ← classRest f fuel (level + 1) inner front none rest
          classRest f fuel level negated (m.push nested depth) left rest
    | '&' :: '&' :: rest => operation .inter rest
    | '-' :: '-' :: rest => operation .diff rest
    | '~' :: '~' :: rest => operation .symmDiff rest
    | cs => do
      let (item, rest) ← classItem f cs
      classRest f fuel level negated (m.push item 0) left rest

def charClass (f : Flags) (cs : List Char) : Option ((CharSet × Nat) × List Char) :=
  let (negated, front, rest) := classStart f cs
  classRest f (cs.length + 1) 1 negated front none rest

/-! ### Repetitions -/

def decimal (f : Flags) (cs : List Char) : Option (Nat × List Char) :=
  let rec digits : Nat → Option Nat → List Char → Option Nat × List Char
    | 0, n, cs => (n, cs)
    | fuel + 1, n, cs =>
      match cs with
      | c :: rest =>
        if c.isDigit then digits fuel (some (n.getD 0 * 10 + (c.toNat - '0'.toNat))) (skip f rest)
        else (n, cs)
      | [] => (n, [])
  let (n, rest) := digits cs.length none (cs.dropWhile Text.isSpace)
  match n with
  | some n => if n < 0x100000000 then some (n, rest.dropWhile Text.isSpace) else none
  | none => none

/-- Reads the bounds of a repetition behind the opening brace. -/
def bounds (f : Flags) (cs : List Char) : Option ((Nat × Option Nat) × List Char) := do
  let (least, rest) ← decimal f (skip f cs)
  match rest with
  | '}' :: rest => return ((least, some least), rest)
  | ',' :: rest =>
    match skip f rest with
    | '}' :: rest => return ((least, none), rest)
    | rest =>
      match ← decimal f rest with
      | (most, '}' :: rest) => if least ≤ most then return ((least, some most), rest) else none
      | _ => none
  | _ => none

/-- Reads the question mark that makes a repetition lazy. -/
def greed (f : Flags) : List Char → Bool × List Char
  | '?' :: rest => (f.swapGreed, rest)
  | cs => (!f.swapGreed, cs)

/-! ### Groups -/

/-- How a group begins. -/
inductive GroupStart where
  /-- Flags for the rest of the group around it. -/
  | flags (f : Flags)
  | plain (f : Flags)
  | numbered (f : Flags) (name : Option String)

/-- The character may stand in the name of a group; numbers, dots and brackets not in front. -/
def isNameChar (c : Char) (first : Bool) : Bool :=
  if first then c == '_' || Text.isAlphabetic c
  else c == '_' || c == '.' || c == '[' || c == ']' || Text.isAlphanumeric c

/-- Reads the name of a group and the bracket behind it. -/
def groupName (cs : List Char) : Option (String × List Char) :=
  match cs.takeWhile (· != '>'), cs.dropWhile (· != '>') with
  | c :: name, '>' :: rest =>
    if isNameChar c true && name.all (isNameChar · false) then some (String.ofList (c :: name), rest)
    else none
  | _, _ => none

/-- Reads the letters of a flag group. `on` is false behind the hyphen, and `last` is the last
character read. -/
def flagLetters (f : Flags) (on : Bool) (seen : List Char) (last : Option Char) :
    List Char → Option (GroupStart × List Char)
  | [] => none
  | ':' :: rest => if last = some '-' then none else some (.plain f, rest)
  | ')' :: rest => if last = some '-' ∨ last = none then none else some (.flags f, rest)
  | '-' :: rest => if on then flagLetters f false seen (some '-') rest else none
  | c :: rest =>
    if seen.contains c then none
    else
      match f.set c on with
      | some g => flagLetters g on (c :: seen) (some c) rest
      | none => none

/-- Reads the beginning of a group behind its parenthesis. -/
def groupStart (f : Flags) (cs : List Char) : Option (GroupStart × List Char) :=
  match skip f cs with
  | '?' :: '=' :: _ | '?' :: '!' :: _ | '?' :: '<' :: '=' :: _ | '?' :: '<' :: '!' :: _ => none
  | '?' :: 'P' :: '<' :: rest | '?' :: '<' :: rest => do
    let (name, rest) ← groupName rest
    return (.numbered f (some name), rest)
  | '?' :: rest => flagLetters f true [] none rest
  | rest => some (.numbered f none, rest)

/-- What stands in a row: its expression, unless it only sets flags, and how deep it is nested. -/
structure Item where
  expr : Option Regex
  depth : Nat := 0

/-- An expression and how deep it is nested. -/
structure Nested where
  expr : Regex
  depth : Nat

/-- A group that is being read: its finished branches and the items of the last one, newest first. -/
structure Scope where
  flags : Flags
  branches : List Nested := []
  items : List Item := []

namespace Scope

/-- The items of the last branch in a row. -/
def branch (s : Scope) : Nested :=
  ⟨ofRow (s.items.reverse.filterMap (·.expr)), depthOfRow (s.items.map (·.depth))⟩

/-- The alternatives. -/
def close (s : Scope) : Nested :=
  match s.branches with
  | [] => s.branch
  | _ =>
    let all := (s.branch :: s.branches).reverse
    ⟨ofAlternatives (all.map (·.expr)), depthOfRow (all.map (·.depth))⟩

def push (s : Scope) (r : Regex) (depth : Nat) : Scope := { s with items := ⟨some r, depth⟩ :: s.items }

/-- The last item repeated, if there is one to repeat. -/
def repeatLast (s : Scope) (least : Nat) (most : Option Nat) (greedy : Bool) : Option Scope :=
  match s.items with
  | ⟨some r, depth⟩ :: items =>
    some { s with items := ⟨some (ofRounds r least most greedy), depth + 1⟩ :: items }
  | _ => none

end Scope

def ofChar (f : Flags) (c : Char) : Regex :=
  if !f.caseless then literal [c]
  else if f.unicode then ofSet (.caseForms c)
  else ofSet (CharSet.single c).foldedAscii

def dot? (f : Flags) : Option CharSet :=
  complement? f <|
    if f.dotAll then .none
    else if f.crlf then ofChars [('\n', '\n'), ('\r', '\r')]
    else .single '\n'

/-- Reads the rest of a group, or of the expression if `level` is zero. `names` are the names of the
groups so far. Each round takes a character, so `fuel` may be one more than the length of the input. -/
def groupRest :
    Nat → Nat → List String → Scope → List Char → Option ((Nested × List String) × List Char)
  | 0, _, _, _, _ => none
  | fuel + 1, level, names, scope, cs =>
    let f := scope.flags
    let repeated (least : Nat) (most : Option Nat) (rest : List Char) :=
      let (greedy, rest) := greed f rest
      match scope.repeatLast least most greedy with
      | some scope => groupRest fuel level names scope rest
      | none => none
    match skip f cs with
    | [] => if level = 0 then some ((scope.close, names), []) else none
    | c :: rest =>
      match c with
      | ')' => if level = 0 then none else some ((scope.close, names), rest)
      | '|' =>
        groupRest fuel level names
          { scope with branches := scope.branch :: scope.branches, items := [] } rest
      | '(' =>
        match groupStart f rest with
        | none => none
        | some (.flags g, rest) =>
          groupRest fuel level names { scope with flags := g, items := ⟨none, 0⟩ :: scope.items } rest
        | some (.plain g, rest) =>
          if deepest ≤ level then none
          else do
            let ((inner, names), rest) ← groupRest fuel (level + 1) names { flags := g } rest
            groupRest fuel level names (scope.push inner.expr (inner.depth + 1)) rest
        | some (.numbered g name, rest) =>
          if deepest ≤ level || name.any names.contains then none
          else do
            let ((inner, names), rest) ←
              groupRest fuel (level + 1) (name.toList ++ names) { flags := g } rest
            groupRest fuel level names (scope.push (.group inner.expr) (inner.depth + 1)) rest
      | '[' => do
        let ((set, depth), rest) ← charClass f rest
        groupRest fuel level names (scope.push (ofSet set) depth) rest
      | '*' => repeated 0 none rest
      | '+' => repeated 1 none rest
      | '?' => repeated 0 (some 1) rest
      | '\x7b' => do
        let ((least, most), rest) ← bounds f rest
        repeated least most (skip f rest)
      | '\\' => do
        let (atom, rest) ← escape f rest
        let r :=
          match atom with
          | .char c => ofChar f c
          | .set s => ofSet s
          | .place p => .place p
        groupRest fuel level names (scope.push r 0) rest
      | '.' => do groupRest fuel level names (scope.push (ofSet (← dot? f)) 0) rest
      | '^' =>
        groupRest fuel level names
          (scope.push (.place (if f.multiLine then .lineStart f.crlf else .textStart)) 0) rest
      | '$' =>
        groupRest fuel level names
          (scope.push (.place (if f.multiLine then .lineEnd f.crlf else .textEnd)) 0) rest
      | c => groupRest fuel level names (scope.push (ofChar f c) 0) rest

def ofString? (s : String) : Option Regex := do
  let cs := s.toList
  let ((r, _), _) ← groupRest (cs.length + 1) 0 [] { flags := {} } cs
  if r.depth ≤ deepest then return r.expr else none

end Jvm.Regex
