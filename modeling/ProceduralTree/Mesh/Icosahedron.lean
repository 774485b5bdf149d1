import ProceduralTree.Mesh.Basic

/-!
# Icosahedra

The twelve corners of a regular icosahedron are the corners of three golden rectangles, projected
on a sphere.
-/

namespace ProceduralTree

/-- There is no icosahedron of a radius that is not positive and finite. -/
inductive IcosahedronError where
  | radius
deriving DecidableEq, Repr

def IcosahedronError.message : IcosahedronError → String
  | .radius => "invalid tessellation parameters: icosahedron radius must be positive"

namespace Icosahedron

variable {α : Type} [Scalar α]

def goldenRatio : α := (1 + Scalar.sqrt ((5 : Nat) : α)) / (2 : Nat)

/-- The corners before they are projected. -/
def corners : List (Vec3 α) :=
  let t := goldenRatio
  [⟨-1, t, 0⟩, ⟨1, t, 0⟩, ⟨-1, -t, 0⟩, ⟨1, -t, 0⟩,
   ⟨0, -1, t⟩, ⟨0, 1, t⟩, ⟨0, -1, -t⟩, ⟨0, 1, -t⟩,
   ⟨t, 0, -1⟩, ⟨t, 0, 1⟩, ⟨-t, 0, -1⟩, ⟨-t, 0, 1⟩]

/-- Twenty faces, counter-clockwise as seen from outside. -/
def indices : List UInt32 :=
  [0, 11, 5, 0, 5, 1, 0, 1, 7, 0, 7, 10, 0, 10, 11,
   1, 5, 9, 5, 11, 4, 11, 10, 2, 10, 7, 6, 7, 1, 8,
   3, 9, 4, 3, 4, 2, 3, 2, 6, 3, 6, 8, 3, 8, 9,
   4, 9, 5, 2, 4, 11, 6, 2, 10, 8, 6, 7, 9, 8, 1]

/-- An icosahedron around the origin. -/
def mesh (radius : α) (color : Rgb) : Except IcosahedronError (Mesh α) :=
  if Scalar.isFinite radius ∧ ¬radius ≤ 0 then
    .ok (.ofShape .triangleList ((corners.map fun c => radius • c.normalize).toArray)
      indices.toArray color)
  else .error .radius

end Icosahedron

end ProceduralTree
