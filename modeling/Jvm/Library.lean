import Jvm.Library.Builders
import Jvm.Library.Collections
import Jvm.Library.Digests
import Jvm.Library.Handles
import Jvm.Library.Objects
import Jvm.Library.Reflection
import Jvm.Library.Streams
import Jvm.Library.Throwables
import Jvm.Machine.Provider

/-!
# The library

All native methods, and the chain of providers that programs usually run with.
-/

namespace Jvm

def Catalog.library : Catalog :=
  ⟨Library.objectMethods ++ Library.stringMethods ++ Library.builderMethods ++ Library.throwableMethods
    ++ Library.reflectionMethods ++ Library.handleMethods ++ Library.streamMethods
    ++ Library.collectionMethods ++ Library.digestMethods⟩

/-- Native methods come first, then comparisons, then the program. -/
def Chain.standard : Chain := ⟨[.native Catalog.library, .comparison, .mapped]⟩

end Jvm
