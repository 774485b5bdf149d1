import ProceduralTree.Mesh.Color
import ProceduralTree.Mesh.Normals

/-!
# Meshes

A mesh lists its vertices, each with a position, a normal and a color, and an index buffer that
makes triangles of them.

## Main definitions

* `Mesh.faces` — the triangles.
* `Mesh.withNormals` — the mesh with its normals computed anew.
* `Mesh.merge` — two meshes in one. The indices of the second are shifted by the number of vertices
  of the first, and strips of the two are kept apart by a restart index.
* `Mesh.absorb` — merging in place.
-/

namespace ProceduralTree

structure Mesh (α : Type) where
  topology : Topology
  positions : Array (Vec3 α)
  normals : Array (Vec3 α)
  colors : Array Rgb
  indices : Array UInt32

/-- Why two meshes cannot be merged. -/
inductive MergeError where
  | differentTopology
  | tooManyVertices
deriving DecidableEq, Repr

def MergeError.message : MergeError → String
  | .differentTopology =>
    "invalid tessellation parameters: cannot merge meshes of different topology"
  | .tooManyVertices => "invalid tessellation parameters: merged mesh has too many vertices"

namespace Mesh

variable {α : Type}

def empty (topology : Topology) : Mesh α := ⟨topology, #[], #[], #[], #[]⟩

def vertexCount (m : Mesh α) : Nat := m.positions.size

@[simp] theorem vertexCount_empty (topology : Topology) :
    (empty topology : Mesh α).vertexCount = 0 := rfl

def faces (m : Mesh α) : Array Face := m.topology.faces m.indices

def withNormals [Scalar α] (m : Mesh α) : Mesh α :=
  { m with normals := vertexNormals m.positions m.faces }

/-- A mesh of one color with computed normals. -/
def ofShape [Scalar α] (topology : Topology) (positions : Array (Vec3 α)) (indices : Array UInt32)
    (color : Rgb) : Mesh α :=
  withNormals
    { topology, positions, normals := #[], colors := .replicate positions.size color, indices }

@[simp] theorem vertexCount_ofShape [Scalar α] (topology : Topology) (positions : Array (Vec3 α))
    (indices : Array UInt32) (color : Rgb) :
    (ofShape topology positions indices color).vertexCount = positions.size := rfl

@[simp] theorem size_normals_ofShape [Scalar α] (topology : Topology) (positions : Array (Vec3 α))
    (indices : Array UInt32) (color : Rgb) :
    (ofShape topology positions indices color).normals.size = positions.size :=
  size_vertexNormals ..

@[simp] theorem size_colors_ofShape [Scalar α] (topology : Topology) (positions : Array (Vec3 α))
    (indices : Array UInt32) (color : Rgb) :
    (ofShape topology positions indices color).colors.size = positions.size :=
  Array.size_replicate

/-- An index of a mesh that comes behind `offset` vertices; a restart stays a restart. -/
def shift (offset : UInt32) (i : UInt32) : UInt32 :=
  if i = restartIndex then i else i + offset

/-- What comes between the index buffers of two meshes of one topology. -/
def separator (topology : Topology) (first second : Array UInt32) : Array UInt32 :=
  if topology = .triangleStrip ∧ ¬first.isEmpty ∧ ¬second.isEmpty then #[restartIndex] else #[]

/-- The vertices and faces of one mesh and then those of another. -/
def append : Mesh α → Mesh α → Mesh α
  | ⟨topology, positions, normals, colors, indices⟩, second =>
    let offset := UInt32.ofNat positions.size
    let gap := separator topology indices second.indices
    { topology := topology
      positions := positions ++ second.positions
      normals := normals ++ second.normals
      colors := colors ++ second.colors
      indices := indices ++ gap ++ second.indices.map (shift offset) }

@[simp] theorem vertexCount_append (first second : Mesh α) :
    (first.append second).vertexCount = first.vertexCount + second.vertexCount := by
  simp [append, vertexCount]

@[simp] theorem topology_append (first second : Mesh α) :
    (first.append second).topology = first.topology := rfl

/-- One mesh of two, if they are of one topology and all vertices have an index. -/
def merge (first second : Mesh α) : Except MergeError (Mesh α) :=
  if first.topology ≠ second.topology then .error .differentTopology
  else if restartIndex.toNat < first.vertexCount + second.vertexCount then .error .tooManyVertices
  else .ok (first.append second)

/-- Merges another mesh into the current one, which stays as it is if that is not possible. -/
def absorb (second : Mesh α) : ExceptT MergeError (StateM (Mesh α)) Unit := do
  set (← (← get).merge second)

end Mesh

end ProceduralTree
