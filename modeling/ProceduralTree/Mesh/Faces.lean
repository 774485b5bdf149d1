/-!
# Faces of an index buffer

Triangles are given by the numbers of their corners, either three by three or as strips. In a strip
every index completes a triangle with the two before it; every second triangle has its first two
corners exchanged, so that all are wound the same way round. The restart index separates strips.

## Main definitions

* `listFaces` — three indices per triangle; a rest of one or two is left out.
* `stripFaces` — reads a strip buffer in one pass; `RunTail` is what it remembers.
-/

namespace ProceduralTree

inductive Topology where
  | triangleStrip
  | triangleList
deriving DecidableEq, Repr

/-- The index that separates strips and stands for no vertex. -/
def restartIndex : UInt32 := 0xFFFFFFFF

/-- The corners of a triangle in the order of its winding. -/
structure Face where
  a : UInt32
  b : UInt32
  c : UInt32
deriving DecidableEq, Repr

/-- What the next triangle of a strip depends on. -/
inductive RunTail where
  | empty
  | one (b : UInt32)
  /-- The last two indices, and whether the next triangle exchanges them. -/
  | two (a b : UInt32) (exchange : Bool)
deriving DecidableEq, Repr

namespace RunTail

/-- Reads one index: the new tail, and the triangle that the index completes. -/
def read (tail : RunTail) (i : UInt32) : RunTail × Option Face :=
  if i = restartIndex then (empty, none)
  else
    match tail with
    | empty => (one i, none)
    | one b => (two b i false, none)
    | two a b exchange => (two b i !exchange, some (if exchange then ⟨b, a, i⟩ else ⟨a, b, i⟩))

end RunTail

def stripStep (state : RunTail × Array Face) (i : UInt32) : RunTail × Array Face :=
  match state.1.read i with
  | (tail, none) => (tail, state.2)
  | (tail, some face) => (tail, state.2.push face)

def stripFaces (indices : Array UInt32) : Array Face :=
  (indices.foldl stripStep (.empty, #[])).2

def listFaces (indices : Array UInt32) : Array Face :=
  .ofFn fun k : Fin (indices.size / 3) =>
    ⟨indices[3 * k.val], indices[3 * k.val + 1], indices[3 * k.val + 2]⟩

@[simp, grind =] theorem size_listFaces (indices : Array UInt32) :
    (listFaces indices).size = indices.size / 3 := by
  simp [listFaces]

theorem getElem?_listFaces (indices : Array UInt32) (k : Nat) :
    (listFaces indices)[k]? =
      if h : 3 * k + 2 < indices.size then
        some ⟨indices[3 * k], indices[3 * k + 1], indices[3 * k + 2]⟩
      else none := by
  have hk : k < indices.size / 3 ↔ 3 * k + 2 < indices.size := by omega
  simp [listFaces, Array.getElem?_ofFn, hk]

/-- The triangles of an index buffer. -/
def Topology.faces : Topology → Array UInt32 → Array Face
  | triangleStrip => stripFaces
  | triangleList => listFaces

end ProceduralTree
