import Jvm.MethodBody

/-!
# Folding calls into literals

A `Fold` puts a plain text in the place of a literal and takes out the call that would have computed
it. Calls go from the last to the first, so that none moves another that is still to go.
-/

namespace Jvm.Decryption

/-- A literal whose call is known beforehand. -/
structure Fold where
  literal : Nat
  call : Nat
  plain : Units
deriving DecidableEq

namespace Fold

/-- Puts the plain text in the place of the literal. -/
def plant (f : Fold) (code : Array Instruction) : Array Instruction :=
  code.modify f.literal fun i => { i with operand := .const (.string f.plain) }

/-- The body after all folds, which are in the order of their calls. -/
def applyAll (folds : List Fold) (b : MethodBody) : Except Error MethodBody :=
  folds.foldrM (fun f b => (·.2) <$> b.remove f.call)
    { b with instructions := folds.foldl (fun code f => f.plant code) b.instructions }

end Fold

end Jvm.Decryption
