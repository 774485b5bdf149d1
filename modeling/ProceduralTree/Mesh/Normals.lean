import ProceduralTree.Mesh.Faces
import ProceduralTree.Space.Vector

/-!
# Vertex normals

The normal of a vertex is the direction of the sum of the unit normals of its faces, each weighted
by the angle of the face at the vertex. A face that refers to no vertex or has next to no area
contributes nothing; a vertex without contributions has the zero vector for its normal.
-/

namespace ProceduralTree

variable {α : Type} [Scalar α]

/-- The corners of a face in space, if all of them exist. -/
def Face.corners? (f : Face) (positions : Array (Vec3 α)) : Option (Vec3 α × Vec3 α × Vec3 α) := do
  let p ← positions[f.a.toNat]?
  let q ← positions[f.b.toNat]?
  let r ← positions[f.c.toNat]?
  return (p, q, r)

/-- The unit normal of a triangle, by the right-hand rule. -/
def unitNormal? (p q r : Vec3 α) : Option (Vec3 α) :=
  ((q - p).cross (r - p)).normalize? Scalar.tolerance

/-- Adds what a face contributes to the sums of its corners. -/
def addFaceNormal (positions : Array (Vec3 α)) (sums : Array (Vec3 α)) (f : Face) :
    Array (Vec3 α) :=
  match f.corners? positions with
  | none => sums
  | some (p, q, r) =>
    match unitNormal? p q r with
    | none => sums
    | some n =>
      let sums := sums.modify f.a.toNat (· + (q - p).angle (r - p) • n)
      let sums := sums.modify f.b.toNat (· + (r - q).angle (p - q) • n)
      sums.modify f.c.toNat (· + (p - r).angle (q - r) • n)

@[simp] theorem size_addFaceNormal (positions sums : Array (Vec3 α)) (f : Face) :
    (addFaceNormal positions sums f).size = sums.size := by
  unfold addFaceNormal
  split
  · rfl
  · split <;> simp

theorem size_foldl_addFaceNormal (positions sums : Array (Vec3 α)) (faces : List Face) :
    (faces.foldl (addFaceNormal positions) sums).size = sums.size := by
  induction faces generalizing sums with
  | nil => rfl
  | cons f faces ih => rw [List.foldl_cons, ih, size_addFaceNormal]

/-- The normals of the vertices at `positions`. -/
def vertexNormals (positions : Array (Vec3 α)) (faces : Array Face) : Array (Vec3 α) :=
  (faces.foldl (addFaceNormal positions) (.replicate positions.size 0)).map
    fun sum => (sum.normalize? Scalar.tolerance).getD 0

@[simp] theorem size_vertexNormals (positions : Array (Vec3 α)) (faces : Array Face) :
    (vertexNormals positions faces).size = positions.size := by
  rw [vertexNormals, Array.size_map, ← Array.foldl_toList, size_foldl_addFaceNormal,
    Array.size_replicate]

end ProceduralTree
