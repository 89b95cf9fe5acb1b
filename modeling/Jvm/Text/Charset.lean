import Jvm.Text.Units
import Jvm.Text.Utf8

/-!
# Charsets

The charsets that byte and text conversions know, under their usual names in any case. Encoding
writes `?` for what the charset lacks; decoding never fails.
-/

namespace Jvm

/-- A way to write text as bytes. -/
inductive Charset where
  | utf8
  | latin1
  | ascii
  | utf16be
  | utf16le
  /-- Big endian with a byte order mark in front; the mark decides when reading. -/
  | utf16
deriving DecidableEq, Repr, Inhabited

namespace Charset

/-- The names under which the charsets are listed, in order. -/
def names : List String :=
  ["ISO-8859-1", "US-ASCII", "UTF-16", "UTF-16BE", "UTF-16LE", "UTF-8"]

def asciiUpper (s : String) : String :=
  String.ofList (s.toList.map fun c => if 'a' ≤ c && c ≤ 'z' then Char.ofNat (c.toNat - 32) else c)

def find? (name : String) : Option Charset :=
  let name := asciiUpper name
  if ["UTF-8", "UTF8"].contains name then some utf8
  else if ["ISO-8859-1", "ISO8859_1", "ISO8859-1", "LATIN1", "ISO-LATIN-1"].contains name then
    some latin1
  else if ["US-ASCII", "ASCII", "ASCII7"].contains name then some ascii
  else if ["UTF-16BE", "UNICODEBIGUNMARKED"].contains name then some utf16be
  else if ["UTF-16LE", "UNICODELITTLEUNMARKED"].contains name then some utf16le
  else if ["UTF-16", "UTF_16", "UNICODE"].contains name then some utf16
  else none

/-- Two bytes make one unit; an odd byte at the end becomes U+FFFD. -/
def decodePairs (big : Bool) : List UInt8 → Units
  | [] => []
  | [_] => [0xfffd]
  | a :: b :: rest =>
    let hi := if big then a else b
    let lo := if big then b else a
    (hi.toUInt16 <<< 8 ||| lo.toUInt16) :: decodePairs big rest

/-- The two bytes of a unit, high byte first when `big`. -/
def unitBytes (big : Bool) (u : UInt16) : List UInt8 :=
  let hi := (u >>> 8).toUInt8
  let lo := u.toUInt8
  if big then [hi, lo] else [lo, hi]

def decode : Charset → List UInt8 → Units
  | utf8, bs => Units.ofChars (Utf8.decode bs)
  | latin1, bs => bs.map (·.toUInt16)
  | ascii, bs => bs.map fun b => if b < 0x80 then b.toUInt16 else 0xfffd
  | utf16be, bs => decodePairs true bs
  | utf16le, bs => decodePairs false bs
  | utf16, bs =>
    match bs with
    | 0xfe :: 0xff :: rest => decodePairs true rest
    | 0xff :: 0xfe :: rest => decodePairs false rest
    | _ => decodePairs true bs

/-- A unit as one byte, `?` from `bound` on. -/
def narrow (bound : UInt16) (u : UInt16) : UInt8 := if u < bound then u.toUInt8 else 0x3f

def encode : Charset → Units → List UInt8
  | utf8, us => Utf8.encode (Units.chars '?' us)
  | latin1, us => us.map (narrow 0x100)
  | ascii, us => us.map (narrow 0x80)
  | utf16be, us => us.flatMap (unitBytes true)
  | utf16le, us => us.flatMap (unitBytes false)
  | utf16, us => 0xfe :: 0xff :: us.flatMap (unitBytes true)

end Charset

end Jvm
