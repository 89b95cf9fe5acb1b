import Jvm.Archive.Error

/-!
# Deflate

Reading compressed data: blocks that are stored, or written as literals and copies with a fixed or a
transmitted prefix code. Input is a list of bits, the lowest bit of each byte first. A code is a list
of words with their symbols, and reading a symbol keeps the words that begin as the input does
(`residual`). What lies in front of the first byte of the output counts as zeros.
-/

namespace Jvm.Deflate

/-- Input that is left. -/
abbrev Bits := List Bool

abbrev Reader (α : Type) := StateT Bits (Except ArchiveError) α

def bitsOf (bs : List UInt8) : Bits := bs.flatMap fun b => (List.range 8).map b.toNat.testBit

/-- The number that bits write, the lowest first. -/
def number : List Bool → Nat
  | [] => 0
  | b :: rest => b.toNat + 2 * number rest

/-- The bytes that bits write; a last one may be short. -/
def bytesOf : Bits → List UInt8
  | b0 :: b1 :: b2 :: b3 :: b4 :: b5 :: b6 :: b7 :: rest =>
    (number [b0, b1, b2, b3, b4, b5, b6, b7]).toUInt8 :: bytesOf rest
  | [] => []
  | rest => [(number rest).toUInt8]

/-- Reads `n` bits. -/
def take (n : Nat) : Reader Bits := fun s =>
  let bits := s.take n
  if bits.length < n then .error .truncatedStream else .ok (bits, s.drop n)

/-- Reads a number of `n` bits. -/
def takeNumber (n : Nat) : Reader Nat := do return number (← take n)

/-- Skips to the next whole byte; the input ends with one. -/
def align : Reader Unit := fun s => .ok ((), s.drop (s.length % 8))

/-- The stream is not well formed. -/
def invalid {α : Type} : Reader α := throw .invalidStream

/-! ### Prefix codes -/

/-- Words and what they stand for. -/
abbrev Code := List (Bits × Nat)

/-- What is left of the words that begin with a bit. -/
def residual (b : Bool) (code : Code) : Code :=
  code.filterMap fun (word, symbol) =>
    match word with
    | [] => none
    | c :: rest => if c = b then some (rest, symbol) else none

/-- The symbol whose word has been read to its end. -/
def complete? (code : Code) : Option Nat := (code.find? (·.1.isEmpty)).map (·.2)

/-- Reads a symbol from a list of bits. -/
def decodeFrom (code : Code) : Bits → Except ArchiveError (Nat × Bits)
  | [] => .error .truncatedStream
  | b :: rest =>
    match residual b code with
    | [] => .error .invalidStream
    | code =>
      match complete? code with
      | some symbol => .ok (symbol, rest)
      | none => decodeFrom code rest

def decode (code : Code) : Reader Nat := fun s => decodeFrom code s

def longest : Nat := 15

def count (lengths : List Nat) (length : Nat) : Nat :=
  if length = 0 then 0 else lengths.count length

/-- The first word of a length, as a number: words of one length follow each other, and come after the
shorter ones. -/
def firstWord (lengths : List Nat) : Nat → Nat
  | 0 => 0
  | length + 1 => 2 * (firstWord lengths length + count lengths length)

/-- A number in `width` bits, the highest first. -/
def wordBits (width n : Nat) : Bits := ((List.range width).map n.testBit).reverse

/-- The code whose symbols 0, 1, … have words of the given lengths; length 0 stands for none. -/
def canonical (lengths : List Nat) : Code :=
  lengths.zipIdx.filterMap fun (length, symbol) =>
    if length = 0 then none
    else
      let rank := (lengths.take symbol).count length
      some (wordBits length (firstWord lengths length + rank), symbol)

/-- The part of all words that the code uses up, in units of the longest ones. -/
def weight (lengths : List Nat) : Nat :=
  (lengths.filter (· != 0)).foldr (fun length n => 1 <<< (longest - length) + n) 0

def isFull (lengths : List Nat) : Bool := weight lengths == 1 <<< longest

/-- A code of literals or distances: it uses up all words, or has none, or one of a single bit. -/
def buildCode (lengths : List Nat) : Reader Code :=
  let used := lengths.filter (· != 0)
  if isFull lengths || used == [] || used == [1] then return canonical lengths else invalid

/-! ### Copies -/

/-- Extra bits and least value for each symbol of a length, from 257 on. -/
def lengthTable : List (Nat × Nat) :=
  [(0, 3), (0, 4), (0, 5), (0, 6), (0, 7), (0, 8), (0, 9), (0, 10), (1, 11), (1, 13), (1, 15), (1, 17),
    (2, 19), (2, 23), (2, 27), (2, 31), (3, 35), (3, 43), (3, 51), (3, 59), (4, 67), (4, 83), (4, 99),
    (4, 115), (5, 131), (5, 163), (5, 195), (5, 227), (0, 258)]

/-- Extra bits and least value for each symbol of a distance. -/
def distanceTable : List (Nat × Nat) :=
  [(0, 1), (0, 2), (0, 3), (0, 4), (1, 5), (1, 7), (2, 9), (2, 13), (3, 17), (3, 25), (4, 33), (4, 49),
    (5, 65), (5, 97), (6, 129), (6, 193), (7, 257), (7, 385), (8, 513), (8, 769), (9, 1025), (9, 1537),
    (10, 2049), (10, 3073), (11, 4097), (11, 6145), (12, 8193), (12, 12289), (13, 16385), (13, 24577)]

def takeExtra (table : List (Nat × Nat)) (index : Nat) : Reader Nat :=
  match table[index]? with
  | some (extra, least) => do return least + (← takeNumber extra)
  | none => invalid

/-- Repeats, `length` times, the byte that lies `distance` back. -/
def copyBack (distance : Nat) : Nat → Array UInt8 → Array UInt8
  | 0, out => out
  | length + 1, out =>
    copyBack distance length
      (out.push (if distance ≤ out.size then out.getD (out.size - distance) 0 else 0))

/-! ### Blocks -/

/-- Reads literals and copies up to the end of the block, which is symbol 256. Each round reads a bit
at least, so `fuel` may be the length of the input. -/
def readSymbols (literals distances : Code) : Nat → Array UInt8 → Reader (Array UInt8)
  | 0, _ => throw .truncatedStream
  | fuel + 1, out => do
    let symbol ← decode literals
    if symbol < 256 then readSymbols literals distances fuel (out.push symbol.toUInt8)
    else if symbol = 256 then return out
    else
      let length ← takeExtra lengthTable (symbol - 257)
      let distance ← takeExtra distanceTable (← decode distances)
      readSymbols literals distances fuel (copyBack distance length out)

/-- Reads a stored block: its length, the complement of the length, and the bytes. -/
def readStored (out : Array UInt8) : Reader (Array UInt8) := do
  align
  let length ← takeNumber 16
  let complement ← takeNumber 16
  if length + complement ≠ 0xffff then invalid
  else return out ++ (bytesOf (← take (8 * length))).toArray

def fixedLiterals : List Nat :=
  List.replicate 144 8 ++ List.replicate 112 9 ++ List.replicate 24 7 ++ List.replicate 8 8

def fixedDistances : List Nat := List.replicate 32 5

/-- The order in which the lengths of the code of lengths are written. -/
def lengthOrder : List Nat := [16, 17, 18, 0, 8, 7, 9, 6, 10, 5, 11, 4, 12, 3, 13, 2, 14, 1, 15]

/-- Reads `n` numbers of three bits. -/
def takeTriples : Nat → Reader (List Nat)
  | 0 => return []
  | n + 1 => do
    let first ← takeNumber 3
    return first :: (← takeTriples n)

/-- Reads code lengths, the newest first, until there are `total`: a length as it stands, a repetition
of the newest one, or a run of zeros. Each round adds one at least. -/
def readLengths (code : Code) (total : Nat) : Nat → List Nat → Reader (List Nat)
  | 0, newest => if newest.length = total then return newest else invalid
  | fuel + 1, newest => do
    if total < newest.length then invalid
    else if newest.length = total then return newest
    else
      let symbol ← decode code
      if symbol < 16 then readLengths code total fuel (symbol :: newest)
      else if symbol = 16 then
        match newest with
        | [] => invalid
        | last :: _ =>
          readLengths code total fuel (List.replicate (3 + (← takeNumber 2)) last ++ newest)
      else if symbol = 17 then
        readLengths code total fuel (List.replicate (3 + (← takeNumber 3)) 0 ++ newest)
      else readLengths code total fuel (List.replicate (11 + (← takeNumber 7)) 0 ++ newest)

/-- Reads the two codes of a block that brings its own. -/
def readCodes : Reader (Code × Code) := do
  let literals := 257 + (← takeNumber 5)
  let distances := 1 + (← takeNumber 5)
  let written := 4 + (← takeNumber 4)
  if 286 < literals ∨ 30 < distances then invalid
  else
    let triples ← takeTriples written
    -- what is not written at the end of the order is zero
    let lengths := (List.range 19).map fun symbol => triples.getD (lengthOrder.idxOf symbol) 0
    if isFull lengths then
      let total := literals + distances
      let all := (← readLengths (canonical lengths) total total []).reverse
      let distanceCode ← buildCode (all.drop literals)
      let literalCode ← buildCode (all.take literals)
      return (literalCode, distanceCode)
    else invalid

/-- Reads blocks up to the one that is marked as the last. -/
def readBlocks : Nat → Array UInt8 → Reader (Array UInt8)
  | 0, _ => throw .truncatedStream
  | fuel + 1, out => do
    let last ← takeNumber 1
    let kind ← takeNumber 2
    let length := (← get).length
    let out ←
      match kind with
      | 0 => readStored out
      | 1 => readSymbols (canonical fixedLiterals) (canonical fixedDistances) length out
      | 2 => do
        let (literals, distances) ← readCodes
        readSymbols literals distances length out
      | _ => invalid
    if last = 1 then return out else readBlocks fuel out

/-- Expands the data that begins a list of bytes; the second result is the number of bytes that it
takes up. -/
def inflate (input : List UInt8) : Except ArchiveError (List UInt8 × Nat) :=
  match readBlocks (8 * input.length + 1) #[] (bitsOf input) with
  | .ok (out, rest) => .ok (out.toList, input.length - rest.length / 8)
  | .error e => .error e

end Jvm.Deflate
