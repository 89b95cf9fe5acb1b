/-!
# Descriptors

Types of fields and methods and their compact written form: `I`, `Ljava/lang/String;`, `[[B`,
`(ILjava/lang/Object;)V`. Reading is strict: it refuses input that is left over, class names without
an end and arrays of `void`.
-/

namespace Jvm

/-- A type as it occurs in a descriptor. -/
inductive FieldType where
  | byte
  | char
  | double
  | float
  | int
  | long
  | short
  | boolean
  /-- Only as the return type of a method. -/
  | void
  | object (name : String)
  | array (component : FieldType)
deriving DecidableEq, Repr, Inhabited

/-- Why a text is no descriptor. -/
inductive DescriptorError where
  | noType
  | unterminatedClassName (input : String)
  | emptyClassName (input : String)
  | arrayOfVoid (input : String)
  | unknownLetter (letter : Char) (input : String)
  | leftOver (rest : String) (descriptor : String)
  | voidField
  | noParameterList (descriptor : String)
  | voidParameter (descriptor : String)
  | leftOverAfterReturn (rest : String) (descriptor : String)
deriving DecidableEq, Repr

def DescriptorError.text : DescriptorError → String
  | noType => "Empty type descriptor"
  | unterminatedClassName input => s!"Unterminated class name in '{input}'"
  | emptyClassName input => s!"Empty class name in '{input}'"
  | arrayOfVoid input => s!"Array of void in '{input}'"
  | unknownLetter letter input => s!"Invalid type character '{letter}' in '{input}'"
  | leftOver rest descriptor => s!"Trailing input '{rest}' in field descriptor '{descriptor}'"
  | voidField => "Field descriptor can not be void"
  | noParameterList descriptor => s!"Method descriptor '{descriptor}' does not start with '('"
  | voidParameter descriptor => s!"Void parameter in method descriptor '{descriptor}'"
  | leftOverAfterReturn rest descriptor =>
    s!"Trailing input '{rest}' in method descriptor '{descriptor}'"

/-- Slashes become dots, as in the name that a program sees. -/
def binaryName (name : String) : String :=
  String.ofList (name.toList.map fun c => if c = '/' then '.' else c)

namespace FieldType

/-- The words that a value takes up in a frame. -/
def slots : FieldType → Nat
  | long | double => 2
  | void => 0
  | _ => 1

def isReference : FieldType → Bool
  | object _ | array _ => true
  | _ => false

/-- The return type of a method without a result. -/
def isVoid : FieldType → Bool
  | void => true
  | _ => false

/-- The written form, as characters. -/
def descriptorChars : FieldType → List Char
  | byte => ['B']
  | char => ['C']
  | double => ['D']
  | float => ['F']
  | int => ['I']
  | long => ['J']
  | short => ['S']
  | boolean => ['Z']
  | void => ['V']
  | object name => 'L' :: name.toList ++ [';']
  | array component => '[' :: component.descriptorChars

def descriptor (t : FieldType) : String := String.ofList t.descriptorChars

/-- The name of a primitive type; that of a reference type is its class or descriptor. -/
def internalName : FieldType → String
  | byte => "byte"
  | char => "char"
  | double => "double"
  | float => "float"
  | int => "int"
  | long => "long"
  | short => "short"
  | boolean => "boolean"
  | void => "void"
  | object name => name
  | array component => (array component).descriptor

/-- The name in source code: that of the class or primitive type with dots. -/
def sourceName (t : FieldType) : String := binaryName t.internalName

/-- The class name up to a semicolon, and what follows it. -/
def splitClassName (cs : List Char) : Option (List Char × List Char) :=
  match cs.dropWhile (· != ';') with
  | [] => none
  | _ :: rest => some (cs.takeWhile (· != ';'), rest)

def read : List Char → Except DescriptorError (FieldType × List Char)
  | [] => .error .noType
  | c :: rest =>
    match c with
    | 'B' => .ok (byte, rest)
    | 'C' => .ok (char, rest)
    | 'D' => .ok (double, rest)
    | 'F' => .ok (float, rest)
    | 'I' => .ok (int, rest)
    | 'J' => .ok (long, rest)
    | 'S' => .ok (short, rest)
    | 'Z' => .ok (boolean, rest)
    | 'V' => .ok (void, rest)
    | 'L' =>
      match splitClassName rest with
      | none => .error (.unterminatedClassName (String.ofList (c :: rest)))
      | some ([], _) => .error (.emptyClassName (String.ofList (c :: rest)))
      | some (name, rest) => .ok (object (String.ofList name), rest)
    | '[' =>
      match read rest with
      | .error e => .error e
      | .ok (void, _) => .error (.arrayOfVoid (String.ofList (c :: rest)))
      | .ok (component, rest) => .ok (array component, rest)
    | _ => .error (.unknownLetter c (String.ofList (c :: rest)))

def parse (s : String) : Except DescriptorError FieldType :=
  match read s.toList with
  | .error e => .error e
  | .ok (t, rest) =>
    if rest ≠ [] then .error (.leftOver (String.ofList rest) s)
    else if t = void then .error .voidField
    else .ok t

/-- The type that a class operand names: an array by its descriptor, a class by its name. -/
def ofClassOperand (s : String) : Except DescriptorError FieldType :=
  if s.toList.head? = some '[' then parse s else .ok (object s)

end FieldType

/-- The types of a method's parameters and result. -/
structure MethodDescriptor where
  parameters : List FieldType
  returns : FieldType
deriving DecidableEq, Repr, Inhabited

namespace MethodDescriptor

/-- The words that the arguments take up, without a receiver. -/
def argumentSlots (d : MethodDescriptor) : Nat := d.parameters.foldr (fun p n => p.slots + n) 0

def descriptor (d : MethodDescriptor) : String :=
  String.ofList ('(' :: d.parameters.flatMap FieldType.descriptorChars ++ ')' :: d.returns.descriptorChars)

/-- Reads parameters up to the closing parenthesis and returns what follows it. Each parameter takes
at least one character, so `fuel` may be the length of the input. -/
def readParameters (whole : String) :
    Nat → List Char → Except DescriptorError (List FieldType × List Char)
  | _, ')' :: rest => .ok ([], rest)
  | 0, _ => .error .noType
  | fuel + 1, cs =>
    match FieldType.read cs with
    | .error e => .error e
    | .ok (.void, _) => .error (.voidParameter whole)
    | .ok (t, rest) =>
      match readParameters whole fuel rest with
      | .error e => .error e
      | .ok (ts, rest) => .ok (t :: ts, rest)

def parse (s : String) : Except DescriptorError MethodDescriptor :=
  match s.toList with
  | '(' :: cs =>
    match readParameters s cs.length cs with
    | .error e => .error e
    | .ok (parameters, rest) =>
      match FieldType.read rest with
      | .error e => .error e
      | .ok (returns, []) => .ok { parameters, returns }
      | .ok (_, rest) => .error (.leftOverAfterReturn (String.ofList rest) s)
  | _ => .error (.noParameterList s)

end MethodDescriptor

end Jvm
