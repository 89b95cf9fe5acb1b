import Jvm.Library.Strings

/-!
# Patterns and collections

Compiled patterns, and the collection of charset names with its iterator.
-/

namespace Jvm.Library

def compile (c : Call) : Exec Value := do
  let source := (← c.stringArgument 0).toStringLossy
  let automaton ← compilePattern "Pattern.compile" source
  Exec.allocate (.pattern ⟨source, automaton⟩)

def patternSource (c : Call) : Exec Value := do
  Exec.newString (Units.ofString (← c.narrowThis View.pattern).source)

/-- The pieces of a text between the matches of a pattern. -/
def splitByPattern (c : Call) : Exec Value := do
  let pattern ← c.narrowThis View.pattern
  let text := (← Exec.display (← c.argument 0)).toStringLossy
  Exec.newStrings (Text.splitOn text pattern.automaton)

def availableCharsets (_ : Call) : Exec Value := do
  let elements ← Charset.names.mapM fun name => Exec.newString (Units.ofString name)
  Exec.allocateAs "java/util/SortedMap" (.collection elements)

def keySet (c : Call) : Exec Value := do Exec.allocate (.collection (← c.narrowThis View.collection))

def iteratorOf (c : Call) : Exec Value := do
  Exec.allocate (.iterator { elements := ← c.narrowThis View.collection })

def collectionSize (c : Call) : Exec Value := return .ofLength (← c.narrowThis View.collection).length

def hasNext (c : Call) : Exec Value := do
  let i ← c.narrowThis View.iterator
  return .ofBool (i.cursor < i.elements.length)

def nextElement (c : Call) : Exec Value := do
  let i ← c.narrowThis View.iterator
  match i.elements[i.cursor]? with
  | none => Exec.fail (.exceptionThrown "java/util/NoSuchElementException")
  | some v => do
    c.modifyThis View.iterator ({ · with cursor := i.cursor + 1 })
    return v

def collectionMethods : List NativeMethod :=
  let pattern := native "java/util/regex/Pattern"
  [pattern "compile(Ljava/lang/String;)Ljava/util/regex/Pattern;" compile,
    pattern "pattern()Ljava/lang/String;" patternSource,
    pattern "split(Ljava/lang/CharSequence;)[Ljava/lang/String;" splitByPattern,
    native "java/nio/charset/Charset" "availableCharsets()Ljava/util/SortedMap;" availableCharsets,
    native "java/util/SortedMap" "keySet()Ljava/util/Set;" keySet,
    native "java/util/Set" "iterator()Ljava/util/Iterator;" iteratorOf,
    native "java/util/Set" "size()I" collectionSize,
    native "java/util/Iterator" "hasNext()Z" hasNext,
    native "java/util/Iterator" "next()Ljava/lang/Object;" nextElement]

end Jvm.Library
