import ProceduralTree.Scalar.Basic

/-!
# Binary64 scalars
-/

namespace ProceduralTree

instance : Scalar Float where
  zero := 0.0
  one := 1.0
  decidableLT := inferInstance
  decidableLE := inferInstance
  natCast := Float.ofNat
  floor a := a.toUInt64.toNat
  isFinite := Float.isFinite
  sqrt := Float.sqrt
  fourthRoot a := Float.pow a 0.25
  sin := Float.sin
  cos := Float.cos
  arccos := Float.acos
  pi := 3.141592653589793

end ProceduralTree
