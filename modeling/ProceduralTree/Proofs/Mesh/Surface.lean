import Mathlib.Data.Finset.Card
import Mathlib.Algebra.BigOperators.Group.Finset.Basic
import Mathlib.Data.Sym.Sym2
import ProceduralTree.Mesh.Basic

/-!
# Surfaces made of triangles

A triangle runs through its three edges in the order of its winding. Where every edge is run
through once each way, the triangles close up to a surface that has an inside and an outside.

## Main definitions

* `Face.edges`, `Face.IsProper` — directed edges; three different corners.
* `Mesh.properFaces` — the faces of a mesh without the degenerate ones.
* `IsClosedSurface` — every edge is shared by two triangles, wound the same way round.

## Main statements

* `IsClosedSurface.two_mul_card_undirectedEdges` — twice the number of edges is three times the
  number of triangles.
-/

namespace ProceduralTree

namespace Face

def corners (f : Face) : List UInt32 := [f.a, f.b, f.c]

/-- The directed edges of a triangle along its winding. -/
def edges (f : Face) : List (UInt32 × UInt32) := [(f.a, f.b), (f.b, f.c), (f.c, f.a)]

theorem mem_corners {f : Face} {v : UInt32} : v ∈ f.corners ↔ ∃ e ∈ f.edges, e.1 = v := by
  simp [corners, edges, eq_comm]

/-- Whether the three corners differ. -/
def IsProper (f : Face) : Prop := f.a ≠ f.b ∧ f.b ≠ f.c ∧ f.c ≠ f.a

instance (f : Face) : Decidable f.IsProper := inferInstanceAs (Decidable (_ ∧ _))

theorem isProper_iff {f : Face} : f.IsProper ↔ ∀ e ∈ f.edges, e.1 ≠ e.2 := by
  simp [IsProper, edges]

theorem IsProper.nodup_edges {f : Face} (h : f.IsProper) : f.edges.Nodup := by
  simp [edges, h.1, h.2.1, h.2.2, h.1.symm]

end Face

/-- The faces of a mesh with three different corners. -/
def Mesh.properFaces {α : Type} (m : Mesh α) : List Face :=
  m.faces.toList.filter fun f => f.IsProper

/-- The number of triangles that have a directed edge. -/
def edgeCount (faces : List Face) (e : UInt32 × UInt32) : Nat :=
  faces.countP fun f => e ∈ f.edges

theorem edgeCount_pos {faces : List Face} {e : UInt32 × UInt32} :
    0 < edgeCount faces e ↔ ∃ f ∈ faces, e ∈ f.edges := by
  simp [edgeCount, List.countP_pos_iff]

/-- A triangle runs through the edge, and none through it the other way. -/
def IsOpenEdge (faces : List Face) (e : UInt32 × UInt32) : Prop :=
  0 < edgeCount faces e ∧ edgeCount faces e.swap = 0

/-- The edges of triangles without their directions. -/
def undirectedEdges (faces : List Face) : Finset (Sym2 UInt32) :=
  (faces.flatMap Face.edges).toFinset.image fun e => s(e.1, e.2)

/-- The triangles have no boundary, are wound the same way round, and use the vertices below
`n`. -/
structure IsClosedSurface (faces : List Face) (n : Nat) : Prop where
  proper : ∀ f ∈ faces, f.IsProper
  edge : ∀ f ∈ faces, ∀ e ∈ f.edges, edgeCount faces e = 1 ∧ edgeCount faces e.swap = 1
  vertex : ∀ v : UInt32, v.toNat < n ↔ ∃ f ∈ faces, v ∈ f.corners

variable {faces : List Face}

/-- A directed edge occurs as often as there are triangles that have it. -/
theorem count_edges (h : ∀ f ∈ faces, f.IsProper) (e : UInt32 × UInt32) :
    (faces.flatMap Face.edges).count e = edgeCount faces e := by
  induction faces with
  | nil => rfl
  | cons f faces ih =>
    have hf : f.edges.count e = if e ∈ f.edges then 1 else 0 :=
      (h f (by simp)).nodup_edges.count
    rw [List.flatMap_cons, List.count_append, ih fun f' hf' => h f' (List.mem_cons_of_mem _ hf'),
      hf]
    simp only [edgeCount, List.countP_cons, decide_eq_true_eq]
    omega

namespace IsClosedSurface

variable {n : Nat}

theorem nodup_edges (h : IsClosedSurface faces n) : (faces.flatMap Face.edges).Nodup := by
  apply List.nodup_iff_count_le_one.2
  intro e
  by_cases he : e ∈ faces.flatMap Face.edges
  · obtain ⟨f, hf, he⟩ := List.mem_flatMap.1 he
    rw [count_edges h.proper, (h.edge f hf e he).1]
  · rw [List.count_eq_zero.2 he]
    exact Nat.zero_le _

theorem swap_mem (h : IsClosedSurface faces n) {e : UInt32 × UInt32}
    (he : e ∈ faces.flatMap Face.edges) : e.swap ∈ faces.flatMap Face.edges := by
  obtain ⟨f, hf, he⟩ := List.mem_flatMap.1 he
  rw [← List.count_pos_iff, count_edges h.proper, (h.edge f hf e he).2]
  exact Nat.one_pos

/-- A directed edge and its reverse are the only two with their ends. -/
theorem filter_eq_pair (h : IsClosedSurface faces n) {e : UInt32 × UInt32}
    (he : e ∈ faces.flatMap Face.edges) :
    {e' ∈ (faces.flatMap Face.edges).toFinset | s(e'.1, e'.2) = s(e.1, e.2)} = {e, e.swap} := by
  ext e'
  simp only [Finset.mem_filter, List.mem_toFinset, Finset.mem_insert, Finset.mem_singleton,
    Sym2.eq_iff]
  constructor
  · rintro ⟨-, ⟨h₁, h₂⟩ | ⟨h₁, h₂⟩⟩
    · exact .inl (Prod.ext h₁ h₂)
    · exact .inr (Prod.ext h₁ h₂)
  · rintro (rfl | rfl)
    · exact ⟨he, .inl ⟨rfl, rfl⟩⟩
    · exact ⟨h.swap_mem he, .inr ⟨rfl, rfl⟩⟩

/-- Every edge comes from two directed edges, and every triangle has three of those. -/
theorem two_mul_card_undirectedEdges (h : IsClosedSurface faces n) :
    2 * (undirectedEdges faces).card = 3 * faces.length := by
  have hcard : (faces.flatMap Face.edges).toFinset.card = 3 * faces.length := by
    rw [List.toFinset_card_of_nodup h.nodup_edges, List.length_flatMap]
    simp [Face.edges, List.map_const', Nat.mul_comm]
  have hfiber : ∀ b ∈ undirectedEdges faces,
      {e ∈ (faces.flatMap Face.edges).toFinset | s(e.1, e.2) = b}.card = 2 := by
    intro b hb
    obtain ⟨e, he, rfl⟩ := Finset.mem_image.1 hb
    have he : e ∈ faces.flatMap Face.edges := List.mem_toFinset.1 he
    obtain ⟨f, hf, hef⟩ := List.mem_flatMap.1 he
    have hne : e ≠ e.swap := fun heq =>
      Face.isProper_iff.1 (h.proper f hf) e hef (congrArg Prod.fst heq)
    rw [h.filter_eq_pair he, Finset.card_pair hne]
  calc 2 * (undirectedEdges faces).card = ∑ b ∈ undirectedEdges faces, 2 := by
        rw [Finset.sum_const, smul_eq_mul, Nat.mul_comm]
    _ = ∑ b ∈ undirectedEdges faces,
          {e ∈ (faces.flatMap Face.edges).toFinset | s(e.1, e.2) = b}.card :=
        Finset.sum_congr rfl fun b hb => (hfiber b hb).symm
    _ = (faces.flatMap Face.edges).toFinset.card :=
        (Finset.card_eq_sum_card_image (fun e : UInt32 × UInt32 => s(e.1, e.2)) _).symm
    _ = 3 * faces.length := hcard

end IsClosedSurface

end ProceduralTree
