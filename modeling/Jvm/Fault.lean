import Jvm.Opcode
import Jvm.Text.Quoted

/-!
# Faults

What can go wrong while a method runs, the coarse kind of each fault, and its text.
-/

namespace Jvm

/-- What sort of trouble a fault is. -/
inductive FaultKind where
  /-- A method, field, class or check that nothing answers. -/
  | unresolvedMember
  /-- A value of the wrong type. -/
  | type
  /-- An object or the call stack in the wrong state. -/
  | state
  /-- A limit was reached. -/
  | stepBudget
  /-- Something outside of the machine failed. -/
  | host
  /-- The program itself raised an exception. -/
  | runtime
  /-- The code asks for something that is not modelled. -/
  | unsupported
deriving DecidableEq, Repr

def FaultKind.text : FaultKind → String
  | unresolvedMember => "unresolved member"
  | type => "type fault"
  | state => "state fault"
  | stepBudget => "step budget exhausted"
  | host => "host failure"
  | runtime => "runtime exception"
  | unsupported => "unsupported"

def FaultKind.label : FaultKind → String
  | unresolvedMember => "UnresolvedMember"
  | type => "Type"
  | state => "State"
  | stepBudget => "StepBudget"
  | host => "Host"
  | runtime => "Runtime"
  | unsupported => "Unsupported"

/-- A fault of a running method. -/
inductive Fault where
  | stackUnderflow
  | stackOverflow (limit : Nat)
  /-- A stack instruction would take half of a two-word value. -/
  | stackShape (instruction : String)
  | callStackUnderflow
  | localIndex (index count : Nat)
  | argumentIndex (index count : Nat)
  | argumentCount (expected found : Nat)
  | typeMismatch (operation expected found : String)
  | heapType (expected found : String)
  | constructorType (expected found : String)
  | uninitializedObject (className : String)
  | alreadyInitialized (className : String)
  | invalidReference (id : Nat)
  | unresolvedMethod (owner name descriptor : String)
  | unresolvedField (owner name : String)
  | unresolvedComparison (first second : String)
  | unresolvedInstanceOf (className target : String)
  | classNotFound (name : String)
  | missingBody (owner name descriptor : String)
  | instructionLimit (executed limit : Nat)
  | callDepth (depth limit : Nat)
  | heapLimit (limit : Nat)
  | hostFailure (operation message : String)
  | nullReference
  | divisionByZero
  | arrayIndex (index : Int) (length : Nat)
  | arrayElementType (expected found : String)
  | negativeArraySize (size : Int)
  | stringIndex (index : Int) (length : Nat)
  | classCast (source target : String)
  | numberFormat (input : String)
  | exceptionThrown (className : String)
  | unsupportedOpcode (opcode : Opcode)
  | invalidOperand (instruction expected : String)
  | invalidBranchTarget (target : Nat)
  | fellOffEnd (owner method : String)
  | invalidDescriptor (descriptor : String)
deriving DecidableEq, Repr

namespace Fault

def kind : Fault → FaultKind
  | unresolvedMethod .. | unresolvedField .. | unresolvedComparison .. | unresolvedInstanceOf ..
  | classNotFound .. => .unresolvedMember
  | typeMismatch .. | heapType .. | constructorType .. | arrayElementType .. | argumentCount .. =>
    .type
  | uninitializedObject .. | alreadyInitialized .. | callStackUnderflow | invalidReference .. =>
    .state
  | instructionLimit .. | callDepth .. | heapLimit .. | stackOverflow .. => .stepBudget
  | hostFailure .. => .host
  | nullReference | divisionByZero | arrayIndex .. | negativeArraySize .. | stringIndex ..
  | classCast .. | numberFormat .. | exceptionThrown .. => .runtime
  | stackUnderflow | stackShape .. | localIndex .. | argumentIndex .. | missingBody ..
  | unsupportedOpcode .. | invalidOperand .. | invalidBranchTarget .. | fellOffEnd ..
  | invalidDescriptor .. => .unsupported

def label : Fault → String
  | stackUnderflow => "StackUnderflow"
  | stackOverflow .. => "StackOverflow"
  | stackShape .. => "StackShapeMismatch"
  | callStackUnderflow => "CallStackUnderflow"
  | localIndex .. => "LocalIndexOutOfBounds"
  | argumentIndex .. => "ArgumentIndexOutOfBounds"
  | argumentCount .. => "ArgumentCountMismatch"
  | typeMismatch .. => "TypeMismatch"
  | heapType .. => "HeapTypeMismatch"
  | constructorType .. => "ConstructorTypeMismatch"
  | uninitializedObject .. => "UninitializedObject"
  | alreadyInitialized .. => "AlreadyInitialized"
  | invalidReference .. => "InvalidHeapReference"
  | unresolvedMethod .. => "UnresolvedMethod"
  | unresolvedField .. => "UnresolvedField"
  | unresolvedComparison .. => "UnresolvedComparison"
  | unresolvedInstanceOf .. => "UnresolvedInstanceOf"
  | classNotFound .. => "ClassNotFound"
  | missingBody .. => "MissingMethodBody"
  | instructionLimit .. => "InstructionLimitExceeded"
  | callDepth .. => "CallDepthExceeded"
  | heapLimit .. => "HeapLimitExceeded"
  | hostFailure .. => "HostFailure"
  | nullReference => "NullReference"
  | divisionByZero => "DivisionByZero"
  | arrayIndex .. => "ArrayIndexOutOfBounds"
  | arrayElementType .. => "ArrayElementTypeMismatch"
  | negativeArraySize .. => "NegativeArraySize"
  | stringIndex .. => "StringIndexOutOfBounds"
  | classCast .. => "ClassCast"
  | numberFormat .. => "NumberFormat"
  | exceptionThrown .. => "ExceptionThrown"
  | unsupportedOpcode .. => "UnsupportedOpcode"
  | invalidOperand .. => "InvalidOperand"
  | invalidBranchTarget .. => "InvalidBranchTarget"
  | fellOffEnd .. => "FellOffEnd"
  | invalidDescriptor .. => "InvalidDescriptor"

def hexByte (n : Nat) : String :=
  String.ofList ((if n < 16 then ['0'] else []) ++ (Text.hexDigits n).map Char.toUpper)

def text : Fault → String
  | stackUnderflow => "operand stack underflow"
  | stackOverflow limit => s!"operand stack overflow (limit: {limit})"
  | stackShape instruction => s!"{instruction} would split a category-2 value"
  | callStackUnderflow => "call stack underflow"
  | localIndex index count => s!"local variable index {index} out of bounds (count: {count})"
  | argumentIndex index count => s!"argument index {index} out of bounds (count: {count})"
  | argumentCount expected found => s!"expected {expected} arguments, found {found}"
  | typeMismatch operation expected found => s!"{operation}: expected {expected}, found {found}"
  | heapType expected found => s!"heap object is a {found}, expected {expected}"
  | constructorType expected found => s!"constructor of {expected} applied to a {found}"
  | uninitializedObject className => s!"object of type {className} used before construction"
  | alreadyInitialized className => s!"object of type {className} constructed twice"
  | invalidReference id => s!"invalid heap reference: {id}"
  | unresolvedMethod owner name descriptor => s!"no provider for {owner}.{name}{descriptor}"
  | unresolvedField owner name => s!"unresolved field {owner}.{name}"
  | unresolvedComparison first second => s!"no provider can compare {first} with {second}"
  | unresolvedInstanceOf className target =>
    s!"no provider can check {className} instanceof {target}"
  | classNotFound name => s!"class not found: {name}"
  | missingBody owner name descriptor => s!"method {owner}.{name}{descriptor} has no body"
  | instructionLimit executed limit =>
    s!"instruction limit exceeded: {executed} executed (limit: {limit})"
  | callDepth depth limit => s!"call depth {depth} exceeded limit {limit}"
  | heapLimit limit => s!"heap object limit exceeded (limit: {limit})"
  | hostFailure operation message => s!"{operation} failed: {message}"
  | nullReference => "null reference"
  | divisionByZero => "division by zero"
  | arrayIndex index length => s!"array index {index} out of bounds (length: {length})"
  | arrayElementType expected found =>
    s!"array element type mismatch: expected {expected}, found {found}"
  | negativeArraySize size => s!"negative array size: {size}"
  | stringIndex index length => s!"string index {index} out of bounds (length: {length})"
  | classCast source target => s!"{source} cannot be cast to {target}"
  | numberFormat input => "invalid number format: " ++ Text.quoted input
  | exceptionThrown className => s!"exception thrown: {className}"
  | unsupportedOpcode opcode =>
    "unsupported opcode " ++ opcode.mnemonic ++ " (0x" ++ hexByte opcode.code ++ ")"
  | invalidOperand instruction expected =>
    s!"invalid operand for {instruction}: expected {expected}"
  | invalidBranchTarget target => s!"invalid branch target: {target}"
  | fellOffEnd owner method => s!"execution ran past the end of {owner}.{method}"
  | invalidDescriptor descriptor => s!"invalid descriptor: {descriptor}"

end Fault

end Jvm
