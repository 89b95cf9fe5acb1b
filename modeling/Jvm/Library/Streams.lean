import Jvm.Library.Arguments

/-!
# Streams

Bytes that are written to memory, bytes that are read from front to back, and the entries of an
archive. Reading an archive takes an entry from the stream while its bytes are copied, and puts it back
afterwards.
-/

namespace Jvm.Library

/-- Closing changes nothing; the object must be constructed. -/
def close (c : Call) : Exec Value := do
  let this ← c.this
  let _ ← Exec.readHeap (·.payload this)
  return .void

def emptySink (c : Call) : Exec Value := c.constructThis (.sink #[])

/-- No bytes yet; the argument says how many are expected. -/
def sinkOfCapacity (c : Call) : Exec Value := do
  let size ← c.intArgument 0
  if size < 0 then Exec.fail (.negativeArraySize size.toInt) else c.constructThis (.sink #[])

def writeByte (c : Call) : Exec Value := do
  let n ← c.intArgument 0
  c.modifyThis View.sink (·.push n.toUInt32.toUInt8)
  return .void

def writeBytes (c : Call) : Exec Value := do
  let bytes ← c.bytesArgument 0
  c.modifyThis View.sink (· ++ bytes)
  return .void

/-- Start and length of a range that must lie inside. -/
def rangeWithin (offset length : Int32) (size : Nat) : Except Fault (Nat × Nat) :=
  let o := offset.toInt
  let n := length.toInt
  if 0 ≤ o ∧ 0 ≤ n ∧ o + n ≤ size then .ok (o.toNat, n.toNat) else .error (.arrayIndex (o + n) size)

def writeRange (c : Call) : Exec Value := do
  let bytes ← c.bytesArgument 0
  let offset ← c.intArgument 1
  let (start, count) ← rangeWithin offset (← c.intArgument 2) bytes.length
  c.modifyThis View.sink (· ++ (bytes.drop start).take count)
  return .void

def sinkBytes (c : Call) : Exec Value := do
  Exec.newBytes (← c.narrowThis View.sink).toList

def sinkSize (c : Call) : Exec Value := return .ofLength (← c.narrowThis View.sink).size

/-- Reads from a source into a part of an array. The number of bytes is -1 where there are no more. -/
def readInto (source : Option ByteSource) (buffer : Value) (offset length : Int32) :
    Exec (Option ByteSource × Int32) := do
  let size := (← Exec.narrow View.array buffer).size
  let (start, count) ← rangeWithin offset length size
  if count = 0 then return (source, 0)
  else
    match source with
    | none => return (none, -1)
    | some s =>
      match s.read count with
      | none => return (some s, -1)
      | some (taken, s) =>
        match ← Exec.narrow View.array buffer with
        | .byte es =>
          let chunk := (taken.map (·.toInt8)).toArray
          Exec.modify View.array buffer fun _ => .byte (ArrayObject.splice es start chunk 0 chunk.size)
          return (some s, Int32.ofNat taken.length)
        | a => Exec.fail (.arrayElementType "byte" a.kind)

def readSource (c : Call) : Exec Value := do
  let this ← c.this
  let source ← Exec.narrow View.source this
  let buffer ← c.argument 0
  let offset ← c.intArgument 1
  let (source, count) ← readInto (some source) buffer offset (← c.intArgument 2)
  match source with
  | some source => Exec.modify View.source this fun _ => source
  | none => pure ()
  return .int count

def readByte (c : Call) : Exec Value := do
  let source ← c.narrowThis View.source
  match source.read 1 with
  | some ([b], source) => do
    c.modifyThis View.source fun _ => source
    return .int (Int32.ofNat b.toNat)
  | _ => return .int (-1)

/-- An archive of the bytes that are left in a source. -/
def openArchive (c : Call) : Exec Value := do
  let origin ← c.argument 0
  let source ← Exec.narrow View.source origin
  Exec.modify View.source origin ({ · with position := source.bytes.length })
  c.constructThis (.zipStream { reader := .ofBytes source.rest })

def nextEntry (c : Call) : Exec Value := do
  let stream ← c.narrowThis View.zipStream
  match stream.reader.next with
  | .error e =>
    Exec.hostFailure "ZipInputStream.getNextEntry" (Error.malformed (.archive e)).text
  | .ok (none, reader) =>
    c.modifyThis View.zipStream fun _ => { reader, entry := none }
    return .null
  | .ok (some entry, reader) =>
    c.modifyThis View.zipStream fun _ => { reader, entry := some { bytes := entry.bytes } }
    Exec.allocate
      (.zipEntry ⟨entry.name, if entry.extra.isEmpty then none else some entry.extra⟩)

def closeEntry (c : Call) : Exec Value := do
  c.modifyThis View.zipStream ({ · with entry := none })
  return .void

/-- Reads from the open entry of an archive into a part of an array. -/
def readArchive (c : Call) : Exec Value := do
  let this ← c.this
  let stream ← Exec.narrow View.zipStream this
  Exec.modify View.zipStream this ({ · with entry := none })
  let buffer ← c.argument 0
  let offset ← c.intArgument 1
  let (entry, count) ← readInto stream.entry buffer offset (← c.intArgument 2)
  Exec.modify View.zipStream this ({ · with entry })
  return .int count

def entryName (c : Call) : Exec Value := do
  Exec.newString (Units.ofString (← c.narrowThis View.zipEntry).name)

/-- The extra field of an entry, if it has one. -/
def entryExtra (c : Call) : Exec Value := do
  match (← c.narrowThis View.zipEntry).extra with
  | some extra => Exec.newBytes extra
  | none => return .null

def streamMethods : List NativeMethod :=
  let sink := native "java/io/ByteArrayOutputStream"
  let source := native "java/io/InputStream"
  let archive := native "java/util/zip/ZipInputStream"
  [sink "<init>()V" emptySink,
    sink "<init>(I)V" sinkOfCapacity,
    sink "write(I)V" writeByte,
    sink "write([B)V" writeBytes,
    sink "write([BII)V" writeRange,
    sink "toByteArray()[B" sinkBytes,
    sink "size()I" sinkSize,
    sink "close()V" close,
    source "read([BII)I" readSource,
    source "read()I" readByte,
    source "close()V" close,
    archive "<init>(Ljava/io/InputStream;)V" openArchive,
    archive "getNextEntry()Ljava/util/zip/ZipEntry;" nextEntry,
    archive "closeEntry()V" closeEntry,
    archive "read([BII)I" readArchive,
    archive "close()V" close,
    native "java/util/zip/ZipEntry" "getName()Ljava/lang/String;" entryName,
    native "java/util/zip/ZipEntry" "getExtra()[B" entryExtra]

end Jvm.Library
