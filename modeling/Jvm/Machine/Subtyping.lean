import Jvm.ClassFile

/-!
# Assignability

Which class names stand for subtypes of which. Classes of the program say so themselves; for classes of
the library there is a table; arrays follow their elements.
-/

namespace Jvm

def librarySupertypes : String → List String
  | "java/lang/String" => ["java/io/Serializable", "java/lang/Comparable", "java/lang/CharSequence"]
  | "java/lang/StringBuilder" | "java/lang/StringBuffer" =>
    ["java/lang/AbstractStringBuilder", "java/lang/CharSequence", "java/lang/Appendable",
      "java/io/Serializable"]
  | "java/lang/Exception" | "java/lang/Error" => ["java/lang/Throwable", "java/io/Serializable"]
  | "java/lang/RuntimeException" =>
    ["java/lang/Exception", "java/lang/Throwable", "java/io/Serializable"]
  | "java/lang/NullPointerException" =>
    ["java/lang/RuntimeException", "java/lang/Exception", "java/lang/Throwable", "java/io/Serializable"]
  | "java/lang/BootstrapMethodError" =>
    ["java/lang/LinkageError", "java/lang/Error", "java/lang/Throwable", "java/io/Serializable"]
  | "java/io/ByteArrayOutputStream" =>
    ["java/io/OutputStream", "java/io/Closeable", "java/io/Flushable", "java/lang/AutoCloseable"]
  | "java/io/InputStream" => ["java/io/Closeable", "java/lang/AutoCloseable"]
  | "java/util/zip/ZipInputStream" =>
    ["java/util/zip/InflaterInputStream", "java/io/FilterInputStream", "java/io/InputStream",
      "java/io/Closeable", "java/lang/AutoCloseable"]
  | "java/lang/Class" =>
    ["java/io/Serializable", "java/lang/reflect/GenericDeclaration", "java/lang/reflect/Type",
      "java/lang/reflect/AnnotatedElement"]
  | "java/lang/reflect/Method" =>
    ["java/lang/reflect/Executable", "java/lang/reflect/AccessibleObject", "java/lang/reflect/Member",
      "java/lang/reflect/GenericDeclaration", "java/lang/reflect/AnnotatedElement"]
  | "java/lang/reflect/Field" =>
    ["java/lang/reflect/AccessibleObject", "java/lang/reflect/Member",
      "java/lang/reflect/AnnotatedElement"]
  | "java/lang/invoke/ConstantCallSite" => ["java/lang/invoke/CallSite"]
  | "java/util/Set" => ["java/util/Collection", "java/lang/Iterable"]
  | "java/util/SortedMap" => ["java/util/Map"]
  | "java/lang/Throwable" | "java/lang/StackTraceElement" | "java/net/URL" => ["java/io/Serializable"]
  | _ => []

def isArrayName (name : String) : Bool := name.toList.head? == some '['

namespace ClassDictionary

/-- `isAssignable` with a bound on the nesting of arrays. The element type of an array has a shorter
name, so the length of the name is enough. -/
def assignableWithin (d : ClassDictionary) : Nat → String → String → Bool
  | 0, _, _ => false
  | fuel + 1, name, target =>
    if name = target ∨ target = "java/lang/Object" then true
    else if isArrayName name then
      if target = "java/lang/Cloneable" ∨ target = "java/io/Serializable" then true
      else
        match FieldType.parse name, FieldType.parse target with
        | .ok (.array a), .ok (.array b) =>
          if a.isReference && b.isReference then
            d.assignableWithin fuel a.internalName b.internalName
          else a == b
        | _, _ => false
    else (d.ancestors name).any fun c => c == target || (librarySupertypes c).contains target

/-- A value of the class `name` may be used as one of `target`. -/
def isAssignable (d : ClassDictionary) (name target : String) : Bool :=
  d.assignableWithin (name.length + 1) name target

end ClassDictionary

end Jvm
