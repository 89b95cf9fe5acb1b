import Jvm.Error

/-!
# What became of decryptor calls

Each call of a decryptor that was looked at has one `Outcome`: its plain text is known, or the attempt
failed, or its argument is no literal. A `Summary` is the list of all of them, and all counts and
reports are read off that list. Plain texts are kept as they are shown, where half a surrogate pair is
replaced.
-/

namespace Jvm.Decryption

/-- Where a call stands: an instruction of a method. -/
structure CallSite where
  className : String
  methodName : String
  methodDescriptor : String
  index : Nat
deriving DecidableEq, Repr

namespace CallSite

def text (s : CallSite) : String :=
  s.className ++ " " ++ s.methodName ++ s.methodDescriptor ++ s!" @{s.index}"

/-- Order by class, method, descriptor and index. -/
def compare (a b : CallSite) : Ordering :=
  (Ord.compare a.className b.className)
    |>.then (Ord.compare a.methodName b.methodName)
    |>.then (Ord.compare a.methodDescriptor b.methodDescriptor)
    |>.then (Ord.compare a.index b.index)

end CallSite

/-- Why a call keeps its encrypted literal. -/
inductive Failure where
  /-- The decryptor ended with an error: the kind of the fault, if it is one, and the text. -/
  | emulation (kind : Option FaultKind) (message : String)
  /-- The decryptor returned, but no object. -/
  | notString
  /-- The literal has other consumers. -/
  | sharedLiteral
deriving DecidableEq

namespace Failure

def ofError (cause : Error) : Failure := emulation cause.faultKind cause.text

/-- The kind of the fault that is the reason, if one is. -/
def faultKind : Failure → Option FaultKind
  | emulation kind _ => kind
  | _ => none

def text : Failure → String
  | emulation (some kind) message => "emulation failed (" ++ kind.text ++ "): " ++ message
  | emulation none message => "emulation failed: " ++ message
  | notString => "decryptor did not return a string"
  | sharedLiteral => "literal has more than one consumer"

end Failure

/-- What became of a call. -/
inductive Outcome where
  /-- The plain text stands for the call. -/
  | decrypted (text : String)
  | failed (reason : Failure)
  /-- The argument is no string literal. -/
  | skipped
deriving DecidableEq

namespace Outcome

/-- The plain text of a call that was decrypted. -/
def text? : Outcome → Option String
  | decrypted text => some text
  | _ => none

def reason? : Outcome → Option Failure
  | failed reason => some reason
  | _ => none

def isDecrypted (o : Outcome) : Bool := o.text?.isSome

def isFailed (o : Outcome) : Bool := o.reason?.isSome

def isSkipped : Outcome → Bool
  | skipped => true
  | _ => false

end Outcome

/-- A call of a decryptor and what became of it. -/
structure Record where
  decryptor : String
  site : CallSite
  outcome : Outcome
deriving DecidableEq

namespace Record

/-- The order of reports: by decryptor, class, method name and index. -/
def reportOrder (a b : Record) : Ordering :=
  (compare a.decryptor b.decryptor)
    |>.then (compare a.site.className b.site.className)
    |>.then (compare a.site.methodName b.site.methodName)
    |>.then (compare a.site.index b.site.index)

end Record

/-- All calls that were looked at, in the order in which they were recorded. -/
structure Summary where
  records : List Record
deriving DecidableEq

namespace Summary

def empty : Summary := ⟨[]⟩

def record (s : Summary) (r : Record) : Summary := ⟨s.records ++ [r]⟩

def recordAll (s : Summary) (rs : List Record) : Summary := ⟨s.records ++ rs⟩

def select (s : Summary) (kind : Outcome → Bool) : List Record := s.records.filter fun r => kind r.outcome

def decryptedCount (s : Summary) : Nat := (s.select Outcome.isDecrypted).length

def failedCount (s : Summary) : Nat := (s.select Outcome.isFailed).length

/-- How many calls were skipped. -/
def skippedCount (s : Summary) : Nat := (s.select Outcome.isSkipped).length

/-- The calls of one decryptor with their plain texts. -/
def decryptedFor (s : Summary) (decryptor : String) : List (CallSite × String) :=
  s.records.filterMap fun r =>
    if r.decryptor = decryptor then r.outcome.text?.map (r.site, ·) else none

/-- The failures by decryptor, class, method name and index; those that agree in all keep their order. -/
def failures (s : Summary) : List Record :=
  (s.select Outcome.isFailed).mergeSort fun a b => (a.reportOrder b).isLE

/-- The names of all decryptors in increasing order. -/
def decryptors (s : Summary) : List String :=
  (s.records.map (·.decryptor)).eraseDups.mergeSort fun a b => decide (a ≤ b)

/-- Some call of the decryptor has an outcome of the kind. -/
def has (s : Summary) (decryptor : String) (kind : Outcome → Bool) : Bool :=
  s.records.any fun r => r.decryptor == decryptor && kind r.outcome

/-- The decryptors that were called with literals only and never failed. -/
def removable (s : Summary) : List String :=
  s.decryptors.filter fun d =>
    s.has d Outcome.isDecrypted && !s.has d Outcome.isFailed && !s.has d Outcome.isSkipped

def text (s : Summary) : String :=
  s!"{s.decryptedCount} decrypted, {s.failedCount} failed, {s.skippedCount} skipped across "
    ++ s!"{s.decryptors.length} decryptors"

end Summary

end Jvm.Decryption
