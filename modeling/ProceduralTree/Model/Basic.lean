import ProceduralTree.Model.Store

/-!
# Tree models

A model is a store of meshes and a list of parts, each of which places one mesh of the store. A
branch has a mesh of its own; all leaves share one. Any arena may serve as the store.

## Main definitions

* `Model.ofLeaf` — a model without parts.
* `Model.addBranch`, `Model.addLeaf` — one more part.
* `Model.bark` — all branches in a single mesh.
-/

namespace ProceduralTree

/-- Where a mesh goes: turned about X, Y and Z, scaled, and moved. -/
structure Placement (α : Type) where
  offset : Vec3 α
  /-- The angles about X, then Y, then Z, in radians. -/
  rotation : Vec3 α
  scale : α

def Placement.identity {α : Type} [Scalar α] : Placement α := ⟨0, 0, 1⟩

inductive PartKind where
  | branch
  | leaf
deriving DecidableEq, Repr

/-- A mesh of the store in its place. -/
structure Part (α : Type) (K : Type := MeshId) where
  kind : PartKind
  mesh : K
  placement : Placement α

structure Model (α : Type) (S : Type := MeshStore α) (K : Type := MeshId) where
  store : S
  parts : Array (Part α K)
  /-- The place of the whole tree. -/
  placement : Placement α
  /-- The mesh of every leaf. -/
  leafMesh : K

/-- Why the bark of a model has no mesh. -/
inductive BarkError where
  | store (cause : StoreError)
  | merge (cause : MergeError)
deriving DecidableEq, Repr

def BarkError.message : BarkError → String
  | .store cause => cause.message
  | .merge cause => cause.message

namespace Model

variable {α S K : Type}

/-- A model without parts, whose leaves will share the given mesh. -/
def ofLeaf [Scalar α] [MeshArena S α K] (leaf : Mesh α) : Model α S K :=
  let (id, store) := MeshArena.insert (MeshArena.empty : S) leaf
  { store, parts := #[], placement := .identity, leafMesh := id }

/-- Adds a branch at the origin of the tree. -/
def addBranch [Scalar α] [MeshArena S α K] : Model α S K → Mesh α → Model α S K
  | ⟨store, parts, placement, leafMesh⟩, mesh =>
    let (id, store) := MeshArena.insert store mesh
    ⟨store, parts.push ⟨.branch, id, .identity⟩, placement, leafMesh⟩

def addLeaf : Model α S K → Placement α → Model α S K
  | ⟨store, parts, placement, leafMesh⟩, leafPlacement =>
    ⟨store, parts.push ⟨.leaf, leafMesh, leafPlacement⟩, placement, leafMesh⟩

def setPlacement (m : Model α S K) (placement : Placement α) : Model α S K := { m with placement }

/-- The number of parts of a kind. -/
def count (m : Model α S K) (kind : PartKind) : Nat := m.parts.countP (·.kind = kind)

/-- Merges the mesh of a branch into the bark of the branches before it; leaves are left out. -/
def addBark [MeshArena S α K] (store : S) (bark : Mesh α) (part : Part α K) :
    Except BarkError (Mesh α) :=
  match part.kind with
  | .leaf => .ok bark
  | .branch => do
    let mesh ← (MeshArena.fetch store part.mesh).mapError .store
    (bark.merge mesh).mapError .merge

/-- All branches in a single strip mesh. They lie at the origin of the tree, so nothing moves. -/
def bark [MeshArena S α K] (m : Model α S K) : Except BarkError (Mesh α) :=
  m.parts.foldlM (addBark m.store) (.empty .triangleStrip)

end Model

end ProceduralTree
