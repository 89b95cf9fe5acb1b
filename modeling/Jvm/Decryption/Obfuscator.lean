import Jvm.ClassFile

/-!
# Obfuscators

An obfuscator hides string literals behind calls of its decryptors. What is known of one is how to tell
that a called method is such a decryptor.
-/

namespace Jvm.Decryption

/-- An obfuscator that encrypts string literals. -/
structure Obfuscator where
  id : String
  name : String
  /-- The method that a call runs, if it is a decryptor. -/
  decryptor? : ClassDictionary → MemberRef → Option (ClassFile × Method)

namespace Obfuscator

/-- A static method of the program that has code. -/
def staticHelper? (d : ClassDictionary) (m : MemberRef) : Option (ClassFile × Method) := do
  let (owner, index) ← d.methodWithBody? m.owner m.name m.descriptor
  let method ← owner.methods[index]?
  if method.isStatic then some (owner, method) else none

/-- Its decryptors are static methods with a descriptor of their own; nothing else tells them apart. -/
def allatori : Obfuscator := ⟨"allatori", "Allatori", staticHelper?⟩

end Obfuscator

end Jvm.Decryption
