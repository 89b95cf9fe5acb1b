/-!
# Errors of archives
-/

namespace Jvm

/-- Why an archive or a compressed entry cannot be read. -/
inductive ArchiveError where
  | truncatedHeader (offset : Nat)
  | entryTooLong (offset : Nat)
  | unknownMethod (method : Nat) (entry : String)
  | invalidStream
  | truncatedStream
deriving DecidableEq, Repr

def ArchiveError.text : ArchiveError → String
  | truncatedHeader offset => s!"Truncated zip header at offset {offset}"
  | entryTooLong offset => s!"Zip entry exceeds archive at offset {offset}"
  | unknownMethod method entry =>
    s!"Unsupported zip compression method {method} for entry {entry}"
  | invalidStream => "Invalid deflate stream"
  | truncatedStream => "Truncated deflate stream"

end Jvm
