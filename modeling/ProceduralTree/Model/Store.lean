import ProceduralTree.Mesh.Basic

/-!
# Mesh stores

An arena keeps the meshes of a tree, so that any number of its parts can share one. Nothing is ever
removed.

## Main definitions

* `MeshArena` — what a model asks of the place that keeps its meshes.
* `LawfulMeshArena` — an arena with fresh ids that keeps what was put in.
* `MeshStore` — an arena in which the id of a mesh is its place in the order of insertion.
-/

namespace ProceduralTree

structure MeshId where
  place : Nat
deriving DecidableEq, Repr

inductive StoreError where
  | meshNotFound
deriving DecidableEq, Repr

def StoreError.message : StoreError → String
  | .meshNotFound => "mesh not found in store"

/-- A place that keeps meshes. Each mesh that is put in gets an id, by which it is found again. -/
class MeshArena (S : Type) (α K : outParam Type) where
  empty : S
  size : S → Nat
  /-- The id of one more mesh, and the arena with that mesh. -/
  insert : S → Mesh α → K × S
  get? : S → K → Option (Mesh α)

def MeshArena.fetch {S α K : Type} [MeshArena S α K] (s : S) (id : K) :
    Except StoreError (Mesh α) :=
  match get? s id with
  | none => .error .meshNotFound
  | some m => .ok m

open MeshArena in
/-- An arena that gives out fresh ids and keeps what was put in. -/
class LawfulMeshArena (S : Type) {α K : Type} [MeshArena S α K] : Prop where
  size_empty : size (empty : S) = 0
  size_insert (s : S) (m : Mesh α) : size (insert s m).2 = size s + 1
  /-- No mesh had the id before. -/
  get?_fresh (s : S) (m : Mesh α) : get? s (insert s m).1 = none
  get?_insert_self (s : S) (m : Mesh α) : get? (insert s m).2 (insert s m).1 = some m
  get?_insert_of_get? {s : S} {id : K} {m : Mesh α} (h : get? s id = some m) (m' : Mesh α) :
    get? (insert s m').2 id = some m

structure MeshStore (α : Type) where
  meshes : Array (Mesh α)

namespace MeshStore

variable {α : Type}

def empty : MeshStore α := ⟨#[]⟩

def size (s : MeshStore α) : Nat := s.meshes.size

def isEmpty (s : MeshStore α) : Bool := s.meshes.isEmpty

/-- The id that the next mesh will have. -/
def nextId (s : MeshStore α) : MeshId := ⟨s.size⟩

def get? (s : MeshStore α) (id : MeshId) : Option (Mesh α) := s.meshes[id.place]?

/-- The store with one more mesh, under `nextId`. -/
def push (s : MeshStore α) (m : Mesh α) : MeshStore α := ⟨s.meshes.push m⟩

@[simp] theorem size_push (s : MeshStore α) (m : Mesh α) : (s.push m).size = s.size + 1 := by
  simp [push, size]

@[simp] theorem get?_nextId_push (s : MeshStore α) (m : Mesh α) :
    (s.push m).get? s.nextId = some m := by
  simp [push, get?, nextId, size]

theorem get?_push_of_get? {s : MeshStore α} {id : MeshId} {m : Mesh α} (h : s.get? id = some m)
    (m' : Mesh α) : (s.push m').get? id = some m := by
  simp only [get?] at h
  simp only [get?, push, Array.getElem?_push]
  have : id.place < s.meshes.size := (Array.getElem?_eq_some_iff.1 h).1
  rw [if_neg (by omega), h]

@[default_instance]
instance : MeshArena (MeshStore α) α MeshId where
  empty := empty
  size := size
  insert s m := (s.nextId, s.push m)
  get? := get?

instance : LawfulMeshArena (MeshStore α) where
  size_empty := rfl
  size_insert := size_push
  get?_fresh s _ := Array.getElem?_eq_none (Nat.le_refl s.meshes.size)
  get?_insert_self := get?_nextId_push
  get?_insert_of_get? := get?_push_of_get?

end MeshStore

end ProceduralTree
