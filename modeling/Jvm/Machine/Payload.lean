import Jvm.Archive.Zip
import Jvm.ArrayObject
import Jvm.Regex.Automaton

/-!
# What objects hold

The contents of objects by their kind. A `View` reads and writes the contents of one kind; an operation
that needs a certain kind names it by its view.
-/

namespace Jvm

/-- A method on the call stack, as a stack trace shows it. -/
structure CallFrame where
  className : String
  methodName : String
  line : Int32
deriving DecidableEq, Repr

namespace CallFrame

/-- The frame of a method; the class name gets dots. -/
def ofMethod (owner name : String) (line : Int32) : CallFrame := ⟨binaryName owner, name, line⟩

def text (f : CallFrame) : String :=
  f.className ++ "." ++ f.methodName ++ ":" ++ toString f.line.toInt

end CallFrame

/-- Bytes that are read from front to back. -/
structure ByteSource where
  bytes : List UInt8
  position : Nat := 0
deriving DecidableEq, Repr

namespace ByteSource

/-- The bytes that have not been read. -/
def rest (s : ByteSource) : List UInt8 := s.bytes.drop s.position

/-- Reads at most `count` bytes; none where there are no more, unless none are asked for. -/
def read (s : ByteSource) (count : Nat) : Option (List UInt8 × ByteSource) :=
  if s.rest = [] then if count = 0 then some ([], s) else none
  else
    let taken := s.rest.take count
    some (taken, { s with position := s.position + taken.length })

end ByteSource

/-- An archive that is being read, and the entry that is open. -/
structure ZipStream where
  reader : ZipReader
  entry : Option ByteSource := none
deriving DecidableEq, Repr

/-- What a program learns of an entry. -/
structure EntryInfo where
  name : String
  extra : Option (List UInt8)
deriving DecidableEq, Repr

/-- An exception with the call stack of the place where it was made. -/
structure Throwable where
  message : Option Units
  trace : List CallFrame
deriving DecidableEq, Repr

/-- A method found by reflection. -/
structure MethodObject where
  member : MemberRef
  accessible : Bool := false
deriving DecidableEq, Repr

/-- A handle of a method, by how the method is looked up. -/
structure MethodHandle where
  member : MemberRef
  isStatic : Bool
deriving DecidableEq, Repr

/-- The constant pool of a class. -/
structure ConstantPool where
  owner : String
  size : Int32
deriving DecidableEq, Repr

/-- Elements that are visited one after the other. -/
structure Iterator where
  elements : List Value
  cursor : Nat := 0
deriving DecidableEq

/-- A compiled pattern and its written form. -/
structure Pattern where
  source : String
  automaton : Regex.Automaton
deriving DecidableEq

/-- An algorithm for digests. -/
inductive DigestAlgorithm where
  | md5
  | sha1
deriving DecidableEq, Repr

/-- A digest that is being fed. -/
structure DigestState where
  algorithm : DigestAlgorithm
  pending : Array UInt8 := #[]
deriving DecidableEq, Repr

/-- Fields of an object by name; a newer value stands before an older one. -/
abbrev Fields := List (String × Value)

namespace Fields

/-- The value of a field that has been stored. -/
def get? (fs : Fields) (name : String) : Option Value := (fs.find? (·.1 == name)).map (·.2)

def put (fs : Fields) (name : String) (v : Value) : Fields :=
  (name, v) :: fs.filter (·.1 != name)

end Fields

/-- The contents of an object. -/
inductive Payload where
  | string (text : Units)
  | builder (text : Array UInt16)
  | array (a : ArrayObject)
  | sink (bytes : Array UInt8)
  | source (s : ByteSource)
  | zipStream (s : ZipStream)
  | zipEntry (info : EntryInfo)
  | throwable (t : Throwable)
  | classObject (name : String)
  | method (m : MethodObject)
  | field (member : MemberRef)
  | methodHandle (h : MethodHandle)
  | methodType (descriptor : String)
  | callSite (target : MethodHandle)
  | constantPool (pool : ConstantPool)
  | traceElement (frame : CallFrame)
  | location (url : String)
  | collection (elements : List Value)
  | iterator (i : Iterator)
  | pattern (p : Pattern)
  | digest (d : DigestState)
  | record (fields : Fields)
  /-- An object of which only its class is known. -/
  | plain
deriving DecidableEq

namespace Payload

def kind : Payload → String
  | string _ => "String"
  | builder _ => "StringBuilder"
  | array _ => "Array"
  | sink _ => "ByteSink"
  | source _ => "ByteSource"
  | zipStream _ => "ZipStream"
  | zipEntry _ => "ZipEntry"
  | throwable _ => "Throwable"
  | classObject _ => "Class"
  | method _ => "Method"
  | field _ => "Field"
  | methodHandle _ => "MethodHandle"
  | methodType _ => "MethodType"
  | callSite _ => "CallSite"
  | constantPool _ => "ConstantPool"
  | traceElement _ => "StackTraceElement"
  | location _ => "CodeLocation"
  | collection _ => "Collection"
  | iterator _ => "Iterator"
  | pattern _ => "Pattern"
  | digest _ => "MessageDigest"
  | record _ => "Instance"
  | plain => "Opaque"

/-- The class of an object with these contents, when nothing else is said. -/
def className : Payload → String
  | string _ => "java/lang/String"
  | builder _ => "java/lang/StringBuilder"
  | array a => a.descriptor
  | sink _ => "java/io/ByteArrayOutputStream"
  | source _ => "java/io/InputStream"
  | zipStream _ => "java/util/zip/ZipInputStream"
  | zipEntry _ => "java/util/zip/ZipEntry"
  | throwable _ => "java/lang/Throwable"
  | classObject _ => "java/lang/Class"
  | method _ => "java/lang/reflect/Method"
  | field _ => "java/lang/reflect/Field"
  | methodHandle _ => "java/lang/invoke/MethodHandle"
  | methodType _ => "java/lang/invoke/MethodType"
  | callSite _ => "java/lang/invoke/ConstantCallSite"
  | constantPool _ => "sun/reflect/ConstantPool"
  | traceElement _ => "java/lang/StackTraceElement"
  | location _ => "java/net/URL"
  | collection _ => "java/util/Set"
  | iterator _ => "java/util/Iterator"
  | pattern _ => "java/util/regex/Pattern"
  | digest _ => "java/security/MessageDigest"
  | record _ | plain => "java/lang/Object"

end Payload

/-- One kind of contents: its name, reading it and making it. -/
structure View (α : Type) where
  kind : String
  read? : Payload → Option α
  make : α → Payload

namespace View

/-- Contents with a change made; contents of another kind stay as they are. -/
def edited {α : Type} (view : View α) (f : α → α) (p : Payload) : Payload :=
  match view.read? p with
  | some a => view.make (f a)
  | none => p

def string : View Units := ⟨"String", fun | .string t => some t | _ => none, .string⟩

def builder : View (Array UInt16) := ⟨"StringBuilder", fun | .builder t => some t | _ => none, .builder⟩

def array : View ArrayObject := ⟨"Array", fun | .array a => some a | _ => none, .array⟩

def sink : View (Array UInt8) := ⟨"ByteSink", fun | .sink bs => some bs | _ => none, .sink⟩

def source : View ByteSource := ⟨"ByteSource", fun | .source s => some s | _ => none, .source⟩

def zipStream : View ZipStream := ⟨"ZipStream", fun | .zipStream s => some s | _ => none, .zipStream⟩

def zipEntry : View EntryInfo := ⟨"ZipEntry", fun | .zipEntry i => some i | _ => none, .zipEntry⟩

def throwable : View Throwable := ⟨"Throwable", fun | .throwable t => some t | _ => none, .throwable⟩

def classObject : View String := ⟨"Class", fun | .classObject n => some n | _ => none, .classObject⟩

def method : View MethodObject := ⟨"Method", fun | .method m => some m | _ => none, .method⟩

def field : View MemberRef := ⟨"Field", fun | .field f => some f | _ => none, .field⟩

def methodHandle : View MethodHandle :=
  ⟨"MethodHandle", fun | .methodHandle h => some h | _ => none, .methodHandle⟩

def methodType : View String := ⟨"MethodType", fun | .methodType d => some d | _ => none, .methodType⟩

def constantPool : View ConstantPool :=
  ⟨"ConstantPool", fun | .constantPool p => some p | _ => none, .constantPool⟩

def traceElement : View CallFrame :=
  ⟨"StackTraceElement", fun | .traceElement f => some f | _ => none, .traceElement⟩

def location : View String := ⟨"CodeLocation", fun | .location u => some u | _ => none, .location⟩

def collection : View (List Value) :=
  ⟨"Collection", fun | .collection es => some es | _ => none, .collection⟩

def iterator : View Iterator := ⟨"Iterator", fun | .iterator i => some i | _ => none, .iterator⟩

def pattern : View Pattern := ⟨"Pattern", fun | .pattern p => some p | _ => none, .pattern⟩

def digest : View DigestState := ⟨"MessageDigest", fun | .digest d => some d | _ => none, .digest⟩

def record : View Fields := ⟨"Instance", fun | .record fs => some fs | _ => none, .record⟩

end View

end Jvm
