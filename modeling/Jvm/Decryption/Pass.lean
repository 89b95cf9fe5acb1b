import Jvm.Decryption.Fold
import Jvm.Decryption.Obfuscator
import Jvm.Decryption.Summary
import Jvm.Flow.Analysis
import Jvm.Library
import Jvm.Machine.Run
import Jvm.Text.Quoted

/-!
# Decrypting string literals

The pass looks at each reachable call of a decryptor. Where its only argument is a string literal that
nothing else uses, the decryptor is run on that literal, in a machine of its own and as if called from
there, and the call is folded into the literal. All decryptors run in the program as it was before the
pass.
-/

namespace Jvm.Decryption

/-- What a pass is asked for. -/
structure Config where
  descriptor : String
  limits : Limits
  /-- Classes may be treated in any order; no result depends on it. -/
  parallel : Bool
  file : Option String
deriving DecidableEq

/-- Decryptors take a string and return one. -/
def Config.standard : Config := ⟨"(Ljava/lang/String;)Ljava/lang/String;", Limits.decryption, true, none⟩

/-- How much a message matters. -/
inductive Level where
  | debug
  | info
  | warn
deriving DecidableEq, Repr

def Level.label : Level → String
  | debug => "debug"
  | info => "info"
  | warn => "warn"

/-- What was found at a call. -/
inductive Finding where
  /-- The plain text stands for the literal at an instruction. -/
  | decrypted (literal : Nat) (plain : Units)
  /-- The decryptor ended with an error. -/
  | failed (cause : Error)
  /-- The decryptor returned, but no object. -/
  | notString
  /-- The literal at an instruction has other consumers. -/
  | sharedLiteral (literal : Nat)
  /-- The argument is no string literal. -/
  | skipped
deriving DecidableEq

/-- What is recorded of a finding. -/
def Finding.outcome : Finding → Outcome
  | decrypted _ plain => .decrypted plain.toStringLossy
  | failed cause => .failed (.ofError cause)
  | notString => .failed .notString
  | sharedLiteral _ => .failed .sharedLiteral
  | skipped => .skipped

/-- A call of a decryptor that was looked at. -/
structure Attempt where
  decryptor : String
  site : CallSite
  finding : Finding
deriving DecidableEq

namespace Attempt

def record (a : Attempt) : Record := ⟨a.decryptor, a.site, a.finding.outcome⟩

/-- How a call that was decrypted is folded. -/
def fold? (a : Attempt) : Option Fold :=
  match a.finding with
  | .decrypted literal plain => some ⟨literal, a.site.index, plain⟩
  | _ => none

/-- What is said of the call. A call that was skipped is passed over in silence. -/
def message? (a : Attempt) : Option (Level × String) :=
  let call := a.site.text ++ " via " ++ a.decryptor ++ ": "
  match a.finding with
  | .decrypted _ plain => some (.debug, "Decrypted " ++ call ++ Text.quoted plain.toStringLossy)
  | .failed cause => some (.warn, "Error while decrypting " ++ call ++ cause.text)
  | .notString => some (.warn, "Error while decrypting " ++ call ++ "no string returned")
  | .sharedLiteral literal =>
    some (.warn,
      "Not decrypting " ++ a.site.text ++ s!": the literal at {literal} has other consumers")
  | .skipped => none

end Attempt

/-- What a pass notes while it works. -/
inductive Note where
  /-- The stack of a method is not known, so that its calls are left alone. -/
  | unreadable (className methodName methodDescriptor : String) (cause : FlowError)
  /-- A call was looked at. -/
  | call (a : Attempt)
  /-- All classes were treated. -/
  | finished (obfuscator : String) (summary : Summary) (decrypted : Nat)
deriving DecidableEq

namespace Note

/-- The call that the note is about. -/
def attempt? : Note → Option Attempt
  | call a => some a
  | _ => none

def message? : Note → Option (Level × String)
  | unreadable className methodName methodDescriptor cause =>
    some (.warn,
      "Skipping " ++ className ++ " " ++ methodName ++ methodDescriptor ++ ": "
        ++ (Error.malformed (.flow cause)).text)
  | call a => a.message?
  | finished obfuscator summary decrypted =>
    some (.info,
      obfuscator ++ " string decryption: " ++ summary.text ++ s!" ({decrypted} this run)")

end Note

/-- A pass over the classes of a program. -/
structure Pass where
  obfuscator : Obfuscator
  config : Config
  files : List (String × List UInt8)
  /-- What the clock shows the decryptor of a call. -/
  clocks : CallSite → Clock

namespace Pass

def name : String := "decryption"

def world (p : Pass) (d : ClassDictionary) (site : CallSite) : World :=
  { program := d, limits := p.config.limits, file := p.config.file, files := p.files, clock := p.clocks site }

/-- Runs a decryptor on a literal as if the method of `caller` at the site had called it; nothing if it does
not return an object. -/
def decrypt (p : Pass) (d : ClassDictionary) (caller : ClassFile) (site : CallSite)
    (decryptor : ClassFile × Method) (text : Units) : Except Stop (Option Units) :=
  let act : Exec (Option Units) := do
    -- decryptors may look at the method that calls them
    Exec.pushFrame caller.name site.methodName (Int32.ofNat caller.poolSize.toNat)
    let input ← Exec.intern text
    match ← Chain.standard.execute decryptor.1 decryptor.2 [input] none with
    | .ref id => some <$> Exec.narrow View.string (.ref id)
    | _ => return none
  match act (p.world d site) (State.start p.config.limits) with
  | .ok plain _ => .ok plain
  | .error stop _ => .error stop

def callee? (p : Pass) (d : ClassDictionary) (i : Instruction) :
    Option (MemberRef × ClassFile × Method) :=
  match i.operand with
  | .method m =>
    if i.opcode.isInvoke && m.descriptor == p.config.descriptor then
      (p.obfuscator.decryptor? d m).map (m, ·)
    else none
  | _ => none

/-- What is found at a call. A decryptor that ends with an error is a finding, and one that does not end
leaves none. -/
def finding (p : Pass) (d : ClassDictionary) (caller : ClassFile) (site : CallSite) (a : Analysis)
    (decryptor : ClassFile × Method) (arguments : List Frame) : Except Stop Finding :=
  match arguments with
  | [.literal (.string text) literal] =>
    if a.consumers literal = 1 then
      match p.decrypt d caller site decryptor text with
      | .ok (some plain) => .ok (.decrypted literal plain)
      | .ok none => .ok .notString
      | .error (.error cause) => .ok (.failed cause)
      | .error .outOfFuel => .error .outOfFuel
    else .ok (.sharedLiteral literal)
  | _ => .ok .skipped

/-- Looks at an instruction, if it is a reachable call of a decryptor. -/
def attempt? (p : Pass) (d : ClassDictionary) (c : ClassFile) (m : Method) (a : Analysis)
    (i : Instruction) (index : Nat) : Option (Except Stop Attempt) := do
  let (callee, decryptor) ← p.callee? d i
  let arguments ← a.callArguments? index
  let site : CallSite := ⟨c.name, m.name, m.descriptor, index⟩
  return (p.finding d c site a decryptor arguments).map (⟨callee.owner ++ "." ++ callee.name, site, ·⟩)

/-- Looks at all calls of a method whose stack is known. -/
def tried (p : Pass) (d : ClassDictionary) (c : ClassFile) (m : Method) (b : MethodBody) (a : Analysis) :
    List (Except Stop Attempt) :=
  b.instructions.toList.zipIdx.filterMap fun (i, index) => p.attempt? d c m a i index

/-- Looks at all calls of a method, until a decryptor does not end. -/
def scan (p : Pass) (d : ClassDictionary) (c : ClassFile) (m : Method) : Except Stop (List Note) :=
  match m.body with
  | none => .ok []
  | some b =>
    match Flow.analyze c.name b with
    | .error cause => .ok [.unreadable c.name m.name m.descriptor cause]
    | .ok a => ((p.tried d c m b a).mapM id).map (List.map .call)

/-- Folds the calls that were decrypted. -/
def foldMethod (notes : List Note) (m : Method) : Except Error Method :=
  match m.body with
  | none => .ok m
  | some b => do
    let folds := (notes.filterMap Note.attempt?).filterMap Attempt.fold?
    return { m with body := some (← Fold.applyAll folds b) }

/-- Treats all methods of a class. -/
def treatClass (p : Pass) (d : ClassDictionary) (c : ClassFile) : Except Stop (ClassFile × List Note) := do
  let treated ← c.methods.mapM fun m => do
    let notes ← p.scan d c m
    return (← (foldMethod notes m).mapError .error, notes)
  return ({ c with methods := treated.map (·.1) }, (treated.map (·.2)).flatten)

/-- What a run of a pass leaves. -/
structure Run where
  classes : List ClassFile
  /-- The summary of this run and of those before. -/
  summary : Summary
  notes : List Note
  /-- How many calls this run decrypted. -/
  decrypted : Nat

/-- Treats all classes. A budget of zero instructions would be no limit, so it is refused. A run that is out
of fuel does not return: a decryptor does not end. -/
def run (p : Pass) (s : Summary) (cs : List ClassFile) : Except Stop Run :=
  if p.config.limits.instructions = 0 then
    .error (.error (.configuration "decryption requires a non-zero instruction budget"))
  else do
    let d := ClassDictionary.ofList cs
    let treated ← cs.mapM (p.treatClass d)
    let notes := (treated.map (·.2)).flatten
    let attempts := notes.filterMap Note.attempt?
    let summary := s.recordAll (attempts.map Attempt.record)
    let decrypted := (attempts.filterMap Attempt.fold?).length
    return { classes := treated.map (·.1), summary, decrypted
             notes := notes ++ [.finished p.obfuscator.name summary decrypted] }

end Pass

end Jvm.Decryption
