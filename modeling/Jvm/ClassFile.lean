import Jvm.MethodBody

/-!
# Classes

Classes with their fields and methods, and the dictionary of all classes of a program.
-/

namespace Jvm

/-- Access flags: a set of bits of which each kind of declaration defines some. -/
abbrev Access := UInt16

namespace Access

def forClass (bits : UInt16) : Access := bits &&& 0x7631

def forMethod (bits : UInt16) : Access := bits &&& 0x1dff

def forField (bits : UInt16) : Access := bits &&& 0x50df

/-- The declaration belongs to the class and not to its objects. -/
def isStatic (a : Access) : Bool := a &&& 8 != 0

end Access

/-- A method of a class; without code if it is abstract or native. -/
structure Method where
  name : String
  descriptor : String
  access : Access
  body : Option MethodBody
deriving DecidableEq

namespace Method

/-- The method has no receiver. -/
def isStatic (m : Method) : Bool := Access.isStatic m.access

/-- Constructors and the method that sets up a class. -/
def isInitializer (m : Method) : Bool := m.name == "<init>" || m.name == "<clinit>"

end Method

/-- A field of a class. -/
structure Field where
  name : String
  descriptor : String
  access : Access
  /-- The value before anything is stored, for a static field. -/
  constant : Option Constant
deriving DecidableEq

namespace Field

def isStatic (f : Field) : Bool := Access.isStatic f.access

end Field

/-- A class or interface. -/
structure ClassFile where
  name : String
  superName : Option String
  interfaces : List String
  access : Access
  poolSize : UInt16
  fields : List Field
  methods : List Method
deriving DecidableEq

namespace ClassFile

def sourceName (c : ClassFile) : String := binaryName c.name

/-- The position of the first method of that name and descriptor. -/
def methodIndex? (c : ClassFile) (name descriptor : String) : Option Nat :=
  c.methods.findIdx? fun m => m.name == name && m.descriptor == descriptor

/-- The first method of that name and descriptor. -/
def method? (c : ClassFile) (name descriptor : String) : Option Method :=
  c.methods.find? fun m => m.name == name && m.descriptor == descriptor

/-- The first field of that name. -/
def field? (c : ClassFile) (name : String) : Option Field :=
  c.fields.find? (·.name == name)

/-- The method that sets up the class, if it has code. -/
def setup? (c : ClassFile) : Option Method :=
  (c.method? "<clinit>" "()V").filter (·.body.isSome)

end ClassFile

/-- The classes of a program by name, in the order of the names. -/
structure ClassDictionary where
  classes : List ClassFile
deriving DecidableEq, Inhabited

namespace ClassDictionary

def empty : ClassDictionary := ⟨[]⟩

/-- Puts a class at its place in a sorted list, in place of one of the same name. -/
def insertSorted (c : ClassFile) : List ClassFile → List ClassFile
  | [] => [c]
  | d :: rest =>
    if c.name = d.name then c :: rest
    else if c.name < d.name then c :: d :: rest
    else d :: insertSorted c rest

/-- Adds a class; one of the same name goes. -/
def insert (d : ClassDictionary) (c : ClassFile) : ClassDictionary := ⟨insertSorted c d.classes⟩

/-- The classes of a list; of several of one name the last. -/
def ofList (cs : List ClassFile) : ClassDictionary := cs.foldl insert empty

def get? (d : ClassDictionary) (name : String) : Option ClassFile :=
  d.classes.find? (·.name == name)

def contains (d : ClassDictionary) (name : String) : Bool := (d.get? name).isSome

def size (d : ClassDictionary) : Nat := d.classes.length

/-- A class and the position of its first method of that name and descriptor, if that has code. -/
def methodWithBody? (d : ClassDictionary) (owner name descriptor : String) :
    Option (ClassFile × Nat) := do
  let c ← d.get? owner
  let index ← c.methodIndex? name descriptor
  let m ← c.methods[index]?
  if m.body.isSome then some (c, index) else none

/-- The names that a class extends or implements: first its superclass. -/
def parents (d : ClassDictionary) (name : String) : List String :=
  match d.get? name with
  | some c => c.superName.toList ++ c.interfaces
  | none => []

/-- Depth-first search: the names in `pending` and all names above them that are not in `seen`.
Each round takes a name off `pending`; only a first visit adds names. -/
def search (d : ClassDictionary) : Nat → List String → List String → List String
  | 0, _, seen => seen.reverse
  | _ + 1, [], seen => seen.reverse
  | fuel + 1, name :: pending, seen =>
    if seen.contains name then d.search fuel pending seen
    else d.search fuel (d.parents name ++ pending) (name :: seen)

/-- Enough rounds for every search from one name. -/
def searchFuel (d : ClassDictionary) : Nat :=
  2 + d.classes.foldr (fun c n => 1 + c.interfaces.length + n) 0

/-- A name and all names above it, superclasses before interfaces, each once. -/
def ancestors (d : ClassDictionary) (name : String) : List String :=
  d.search d.searchFuel [name] []

/-- `target` is the class itself or above it. -/
def isSubtype (d : ClassDictionary) (name target : String) : Bool :=
  (d.ancestors name).contains target

/-- The method that a class has or inherits, of those with code. -/
def resolveMethod? (d : ClassDictionary) (owner name descriptor : String) :
    Option (ClassFile × Nat) :=
  (d.ancestors owner).findSome? fun c => d.methodWithBody? c name descriptor

end ClassDictionary

end Jvm
