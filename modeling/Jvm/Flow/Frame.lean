import Jvm.Instruction
import Jvm.Words

/-!
# Frames

What is known of a value on the stack before the code runs: a constant, the result of a call, or
only which instructions it may come from. Where paths join, two frames meet: equal ones stay, others
become unknown and keep where they come from.
-/

namespace Jvm

/-- What is known of a stack entry. `source` is the instruction that pushed it. -/
inductive Frame where
  | literal (value : Constant) (source : Nat)
  | call (owner name descriptor : String) (arguments : List Frame) (source : Nat) (width : Width)
  | field (owner name : String) (source : Nat) (width : Width)
  | arrayLoad (source : Nat) (width : Width)
  | slot (index : UInt16) (source : Nat) (width : Width)
  | new (className : String) (source : Nat) (width : Width)
  | computed (mnemonic : String) (source : Nat) (width : Width)
  /-- The origins are in increasing order. -/
  | unknown (origins : List Nat) (width : Width)
deriving Inhabited

namespace Frame

def width : Frame → Width
  | literal value _ => value.width
  | call _ _ _ _ _ w | field _ _ _ w | arrayLoad _ w | slot _ _ w | new _ _ w | computed _ _ w
  | unknown _ w => w

instance : HasWidth Frame := ⟨Frame.width⟩

/-- The instruction that pushed the entry, if it is known. -/
def source? : Frame → Option Nat
  | literal _ s | call _ _ _ _ s _ | field _ _ s _ | arrayLoad s _ | slot _ s _ | new _ s _
  | computed _ s _ => some s
  | unknown _ _ => none

def origins : Frame → List Nat
  | unknown os _ => os
  | f => f.source?.toList

def constant? : Frame → Option Constant
  | literal value _ => some value
  | _ => none

def string? (f : Frame) : Option Units := f.constant?.bind Constant.string?

def isLiteral (f : Frame) : Bool := f.constant?.isSome

/-- Nothing is known but the origins. -/
def isUnknown : Frame → Bool
  | unknown _ _ => true
  | _ => false

/-- The arguments of a call, its receiver first. -/
def arguments? : Frame → Option (List Frame)
  | call _ _ _ as _ _ => some as
  | _ => none

mutual

/-- Equality, where constants are compared as numbers: a frame with a NaN differs from itself. -/
def same : Frame → Frame → Bool
  | literal v s, literal w t => v.same w && s == t
  | call o n d as s w, call o' n' d' as' s' w' =>
    o == o' && n == n' && d == d' && sameAll as as' && s == s' && w == w'
  | field o n s w, field o' n' s' w' => o == o' && n == n' && s == s' && w == w'
  | arrayLoad s w, arrayLoad s' w' => s == s' && w == w'
  | slot i s w, slot i' s' w' => i == i' && s == s' && w == w'
  | new c s w, new c' s' w' => c == c' && s == s' && w == w'
  | computed m s w, computed m' s' w' => m == m' && s == s' && w == w'
  | unknown os w, unknown os' w' => os == os' && w == w'
  | _, _ => false

def sameAll : List Frame → List Frame → Bool
  | [], [] => true
  | f :: fs, g :: gs => same f g && sameAll fs gs
  | _, _ => false

end

/-- Puts a number at its place in an increasing list, once. -/
def insertOrigin (n : Nat) : List Nat → List Nat
  | [] => [n]
  | m :: rest => if n < m then n :: m :: rest else if n = m then m :: rest else m :: insertOrigin n rest

/-- All numbers of both lists in increasing order, each once. -/
def mergeOrigins (a b : List Nat) : List Nat := (a ++ b).foldr insertOrigin []

/-- What is known where two paths join. -/
def meet (f g : Frame) : Frame :=
  if f.same g then f else unknown (mergeOrigins f.origins g.origins) f.width

/-- Keeps nothing but the origins. -/
def forget (f : Frame) : Frame := unknown f.origins f.width

/-- Halving search in an increasing array: looks among `size` entries from `base` on. -/
def searchFrom (n : Nat) (xs : Array Nat) : Nat → Nat → Nat → Bool
  | 0, _, _ => false
  | fuel + 1, base, size =>
    if size ≤ 1 then xs[base]? == some n
    else
      let half := size / 2
      let base := if n < xs[base + half]?.getD 0 then base else base + half
      searchFrom n xs fuel base (size - half)

/-- The entry may have been pushed by instruction `n`. -/
def mayComeFrom (f : Frame) (n : Nat) : Bool :=
  match f with
  | unknown os _ => searchFrom n os.toArray (os.length + 1) 0 os.length
  | _ => f.source? == some n

end Frame

end Jvm
