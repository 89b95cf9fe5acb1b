import Jvm.Archive.Deflate
import Jvm.Text.Utf8

/-!
# Zip archives

Reading an archive from front to back by the headers that stand before the entries. The directory at
its end is not looked at. An entry is stored or deflated; one whose size was not known when its header
was written has a descriptor behind it.
-/

namespace Jvm

/-- An entry with its expanded bytes. -/
structure ZipEntry where
  name : String
  extra : List UInt8
  bytes : List UInt8
deriving DecidableEq, Repr

/-- A place in an archive. -/
structure ZipReader where
  bytes : List UInt8
  position : Nat := 0
  /-- No header was found where the next entry would begin. -/
  finished : Bool := false
deriving DecidableEq, Repr

namespace ZipReader

def ofBytes (bytes : List UInt8) : ZipReader := { bytes }

/-- The mark at the front of an entry's header. -/
def headerMark : Nat := 0x04034b50

/-- The mark that may stand at the front of a descriptor. -/
def descriptorMark : Nat := 0x08074b50

/-- The length of a header without name and extra field. -/
def headerSize : Nat := 30

/-- The number of `size` bytes at an offset, the lowest byte first. -/
def number? (bytes : List UInt8) (offset size : Nat) : Option Nat :=
  if offset + size ≤ bytes.length then
    some (((bytes.drop offset).take size).foldr (fun b n => n * 256 + b.toNat) 0)
  else none

def headerField (bytes : List UInt8) (offset size : Nat) : Except ArchiveError Nat :=
  match number? bytes offset size with
  | some n => .ok n
  | none => .error (.truncatedHeader offset)

/-- `length` bytes from an offset on. -/
def slice (bytes : List UInt8) (start length : Nat) : Except ArchiveError (List UInt8) :=
  if start + length ≤ bytes.length then .ok ((bytes.drop start).take length)
  else .error (.entryTooLong start)

/-- The bytes of an entry whose data begin at `body`, and their length in the archive. -/
def readData (bytes : List UInt8) (method size body : Nat) (hasDescriptor : Bool) (name : String) :
    Except ArchiveError (List UInt8 × Nat) := do
  if method = 0 then return (← slice bytes body size, size)
  else if method = 8 then
    -- the size follows the data, which end by themselves
    if hasDescriptor && size == 0 then Deflate.inflate (bytes.drop body)
    else return ((← Deflate.inflate (← slice bytes body size)).1, size)
  else throw (.unknownMethod method name)

/-- The entry whose header stands at `start`, and the offset behind it. -/
def readEntry (bytes : List UInt8) (start : Nat) : Except ArchiveError (ZipEntry × Nat) := do
  let flags ← headerField bytes (start + 6) 2
  let method ← headerField bytes (start + 8) 2
  let size ← headerField bytes (start + 18) 4
  let nameLength ← headerField bytes (start + 26) 2
  let extraLength ← headerField bytes (start + 28) 2
  let nameStart := start + headerSize
  let name := String.ofList (Utf8.decode (← slice bytes nameStart nameLength))
  let extra ← slice bytes (nameStart + nameLength) extraLength
  let body := nameStart + nameLength + extraLength
  let hasDescriptor := flags.testBit 3
  let (data, taken) ← readData bytes method size body hasDescriptor name
  let behind := body + taken
  -- a checksum and two sizes, with or without a mark in front of them
  let descriptor :=
    if hasDescriptor then
      if number? bytes behind 4 = some descriptorMark then 16 else 12
    else 0
  return ({ name, extra, bytes := data }, behind + descriptor)

/-- The next entry, if a header stands at the position, and the place behind it. -/
def next (r : ZipReader) : Except ArchiveError (Option ZipEntry × ZipReader) :=
  if r.finished then .ok (none, r)
  else if number? r.bytes r.position 4 ≠ some headerMark then .ok (none, { r with finished := true })
  else
    match readEntry r.bytes r.position with
    | .ok (entry, position) => .ok (some entry, { r with position })
    | .error e => .error e

end ZipReader

end Jvm
