import Jvm.Library.Arguments
import Jvm.Regex.Search
import Jvm.Text.Charset

/-!
# Strings

Strings are sequences of UTF-16 code units, and positions count units. A method that would return an
equal string returns its receiver where nothing changes.
-/

namespace Jvm.Library

/-- `count` units from `offset` on. -/
def unitRange (units : Units) (offset count : Int32) : Except Fault Units :=
  let o := offset.toInt
  let n := count.toInt
  if o < 0 then .error (.stringIndex o units.length)
  else if n < 0 then .error (.stringIndex n units.length)
  else if units.length < o.toNat + n.toNat then .error (.stringIndex (o + n) units.length)
  else .ok ((units.drop o.toNat).take n.toNat)

/-- The characters of an argument that is an array. -/
def charsArgument (c : Call) (index : Nat) : Exec Units := do
  (← Exec.narrow View.array (← c.argument index)).chars

/-- The range of characters that the first three arguments name. -/
def charRange (c : Call) : Exec Units := do
  let chars ← charsArgument c 0
  let offset ← c.intArgument 1
  unitRange chars offset (← c.intArgument 2)

def charsetArgument (c : Call) (index : Nat) : Exec Charset := do
  let name := (← c.stringArgument index).toStringLossy
  match Charset.find? name with
  | some charset => return charset
  | none => Exec.hostFailure "Charset.forName" ("unsupported charset " ++ name)

def stringOfRange (c : Call) : Exec Value := do c.constructThis (.string (← charRange c))

def stringOfChars (c : Call) : Exec Value := do c.constructThis (.string (← charsArgument c 0))

/-- A string of bytes in UTF-8. -/
def stringOfBytes (c : Call) : Exec Value := do
  c.constructThis (.string (Charset.utf8.decode (← c.bytesArgument 0)))

def stringOfEncoded (c : Call) : Exec Value := do
  let bytes ← c.bytesArgument 0
  let charset ← charsetArgument c 1
  c.constructThis (.string (charset.decode bytes))

/-- The one object of all interned strings that are equal. -/
def internString (c : Call) : Exec Value := do Exec.intern (← c.narrowThis View.string)

/-- A string equals another object that is a string of the same units. -/
def stringEquals (c : Call) : Exec Value := do
  let this ← c.narrowThis View.string
  let other ← c.argument 0
  if other.isNull then return .ofBool false
  else
    match ← Exec.readHeap (·.payload other) with
    | .string text => return .ofBool (text == this)
    | _ => return .ofBool false

/-- The units without blanks and control characters at both ends. -/
def trimUnits (units : Units) : Units :=
  ((units.dropWhile (· ≤ 0x20)).reverse.dropWhile (· ≤ 0x20)).reverse

def trim (c : Call) : Exec Value := do
  let units ← c.narrowThis View.string
  let trimmed := trimUnits units
  if trimmed.length = units.length then c.this else Exec.newString trimmed

def toCharArray (c : Call) : Exec Value := do
  Exec.allocate (.array (.char (← c.narrowThis View.string).toArray))

def stringLength (c : Call) : Exec Value := return .ofLength (← c.narrowThis View.string).length

def stringHash (c : Call) : Exec Value := return .int (← c.narrowThis View.string).hash

def unitAt (units : Units) (index : Int32) : Except Fault Value :=
  match (if 0 ≤ index then units[index.toInt.toNat]? else none) with
  | some u => .ok (.int (Int32.ofNat u.toNat))
  | none => .error (.stringIndex index.toInt units.length)

/-- The unit at the index that the argument names. -/
def stringCharAt (c : Call) : Exec Value := do
  let index ← c.intArgument 0
  unitAt (← c.narrowThis View.string) index

/-- The units of a code point; a surrogate stands for itself. -/
def codePointUnits? (n : Int32) : Option Units :=
  if 0 ≤ n ∧ n < 0x10000 then some [n.toUInt32.toUInt16]
  else if 0 ≤ n ∧ n < 0x110000 then some (Units.ofChar (Char.ofNat n.toInt.toNat))
  else none

/-- The first place at which `needle` stands, counted from `offset` on. -/
def firstPlace? (needle : Units) (offset : Nat) : Units → Option Nat
  | [] => none
  | u :: rest =>
    if needle.isPrefixOf (u :: rest) then some offset else firstPlace? needle (offset + 1) rest

/-- The last place at which `needle` stands, counted from `offset` on. -/
def lastPlace? (needle : Units) (offset : Nat) : Units → Option Nat
  | [] => none
  | u :: rest =>
    (lastPlace? needle (offset + 1) rest).or
      (if needle.isPrefixOf (u :: rest) then some offset else none)

/-- A place, or -1 where there is none. -/
def placeValue : Option Nat → Value
  | some n => .int (Int32.ofNat n)
  | none => .int (-1)

/-- The first place of a code point from an index on. -/
def indexOfUnits (units : Units) (codePoint start : Int32) : Value :=
  let start := (max start 0).toInt.toNat
  placeValue ((codePointUnits? codePoint).bind fun needle => firstPlace? needle start (units.drop start))

/-- The first place of a code point. -/
def indexOf (c : Call) : Exec Value := do
  let codePoint ← c.intArgument 0
  return indexOfUnits (← c.narrowThis View.string) codePoint 0

/-- The first place of a code point from an index on. -/
def indexOfFrom (c : Call) : Exec Value := do
  let codePoint ← c.intArgument 0
  let start ← c.intArgument 1
  return indexOfUnits (← c.narrowThis View.string) codePoint start

/-- The last place of a code point. -/
def lastIndexOf (c : Call) : Exec Value := do
  let codePoint ← c.intArgument 0
  let units ← c.narrowThis View.string
  return placeValue ((codePointUnits? codePoint).bind fun needle => lastPlace? needle 0 units)

/-- The units from `first` up to `last`. -/
def unitsBetween (units : Units) (first last : Int) : Except Fault Units :=
  if first < 0 ∨ units.length < first then .error (.stringIndex first units.length)
  else if units.length < last ∨ last < first then .error (.stringIndex (last - first) units.length)
  else .ok ((units.drop first.toNat).take (last - first).toNat)

/-- A part of the receiver; the whole is the receiver itself. -/
def substringOf (c : Call) (units : Units) (first last : Int) : Exec Value := do
  let part ← unitsBetween units first last
  if part.length = units.length then c.this else Exec.newString part

def substring (c : Call) : Exec Value := do
  let first ← c.intArgument 0
  let units ← c.narrowThis View.string
  substringOf c units first.toInt units.length

def substringBetween (c : Call) : Exec Value := do
  let first ← c.intArgument 0
  let last ← c.intArgument 1
  substringOf c (← c.narrowThis View.string) first.toInt last.toInt

/-- The automaton of the expression that a text writes. -/
def compilePattern (operation source : String) : Exec Regex.Automaton :=
  match Regex.compile? source with
  | some m => return m
  | none => Exec.hostFailure operation "the pattern is not well formed or too large"

def splitString (c : Call) : Exec Value := do
  let text := (← c.narrowThis View.string).toStringLossy
  let source := (← c.stringArgument 0).toStringLossy
  let pattern ← compilePattern "String.split" source
  Exec.newStrings (Text.splitOn text pattern)

/-- The text of an object; a string is its own. -/
def valueOf (c : Call) : Exec Value := do
  let v ← c.argument 0
  let isString ←
    if v.isNull then pure false
    else do
      match ← Exec.readHeap (·.payload v) with
      | .string _ => pure true
      | _ => pure false
  if isString then return v else Exec.newString (← Exec.display v)

def valueOfRange (c : Call) : Exec Value := do Exec.newString (← charRange c)

def encodeString (c : Call) : Exec Value := do
  let units ← c.narrowThis View.string
  let charset ← charsetArgument c 0
  Exec.newBytes (charset.encode units)

/-- The bytes of a string in UTF-8. -/
def stringBytes (c : Call) : Exec Value := do
  Exec.newBytes (Charset.utf8.encode (← c.narrowThis View.string))

def stringMethods : List NativeMethod :=
  let method := native "java/lang/String"
  [method "<init>([CII)V" stringOfRange,
    method "<init>([C)V" stringOfChars,
    method "<init>([B)V" stringOfBytes,
    method "<init>([BLjava/lang/String;)V" stringOfEncoded,
    method "intern()Ljava/lang/String;" internString,
    method "equals(Ljava/lang/Object;)Z" stringEquals,
    method "trim()Ljava/lang/String;" trim,
    method "toCharArray()[C" toCharArray,
    method "length()I" stringLength,
    method "hashCode()I" stringHash,
    method "charAt(I)C" stringCharAt,
    method "indexOf(I)I" indexOf,
    method "indexOf(II)I" indexOfFrom,
    method "lastIndexOf(I)I" lastIndexOf,
    method "substring(I)Ljava/lang/String;" substring,
    method "substring(II)Ljava/lang/String;" substringBetween,
    method "split(Ljava/lang/String;)[Ljava/lang/String;" splitString,
    method "valueOf(Ljava/lang/Object;)Ljava/lang/String;" valueOf,
    method "valueOf([CII)Ljava/lang/String;" valueOfRange,
    method "getBytes(Ljava/lang/String;)[B" encodeString,
    method "getBytes()[B" stringBytes]

end Jvm.Library
