import Jvm.Digest.Md5
import Jvm.Digest.Sha1
import Jvm.Library.Arguments
import Jvm.Text.Charset

/-!
# Message digests

A digest collects bytes; to finish it yields the hash of what was collected and begins anew.
-/

namespace Jvm.Library

/-- The algorithm of a name, in any case. -/
def digestAlgorithm? (name : String) : Option DigestAlgorithm :=
  match Charset.asciiUpper name with
  | "MD5" => some .md5
  | "SHA-1" | "SHA1" | "SHA" => some .sha1
  | _ => none

def digestHash (algorithm : DigestAlgorithm) (message : List UInt8) : List UInt8 :=
  match algorithm with
  | .md5 => Digest.Md5.hash message
  | .sha1 => Digest.Sha1.hash message

def digestOf (c : Call) : Exec Value := do
  let name := (← c.stringArgument 0).toStringLossy
  match digestAlgorithm? name with
  | some algorithm => Exec.allocate (.digest { algorithm })
  | none =>
    Exec.hostFailure "MessageDigest.getInstance" (name ++ " MessageDigest not available")

def updateDigest (c : Call) : Exec Value := do
  let bytes ← c.bytesArgument 0
  c.modifyThis View.digest fun d => { d with pending := d.pending ++ bytes }
  return .void

/-- Finishes with some last bytes. -/
def finishWith (c : Call) (last : List UInt8) : Exec Value := do
  let d ← c.narrowThis View.digest
  c.modifyThis View.digest ({ · with pending := #[] })
  Exec.newBytes (digestHash d.algorithm (d.pending.toList ++ last))

def finishDigest (c : Call) : Exec Value := finishWith c []

/-- Finishes a digest with some last bytes. -/
def finishDigestWith (c : Call) : Exec Value := do finishWith c (← c.bytesArgument 0)

def digestMethods : List NativeMethod :=
  let digest := native "java/security/MessageDigest"
  [digest "getInstance(Ljava/lang/String;)Ljava/security/MessageDigest;" digestOf,
    digest "update([B)V" updateDigest,
    digest "digest()[B" finishDigest,
    digest "digest([B)[B" finishDigestWith]

end Jvm.Library
