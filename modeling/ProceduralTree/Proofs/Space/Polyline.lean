import Mathlib.Analysis.InnerProductSpace.PiL2
import Mathlib.Tactic.FieldSimp
import ProceduralTree.Proofs.Scalar.Real

/-!
# Polylines

Segments and polylines in exact arithmetic, and what it means to be near one. A point of a segment
stays near when an end of the segment moves a little.

## Main definitions

* `Vec3.segment`, `Vec3.polyline` — the points of a segment, and of the segments between consecutive
  points of a list.
* `Vec3.IsNear` — whether a point lies within the tolerance of a set.

## Main statements

* `Vec3.isNear_segment` — the segment with another start.
* `Vec3.norm_sub_le_of_mem_segment` — the segment with both ends near one point.
-/

namespace ProceduralTree.Vec3

/-- The vector as one of Euclidean space. -/
noncomputable def toEuclidean (v : Vec3 ℝ) : EuclideanSpace ℝ (Fin 3) := !₂[v.x, v.y, v.z]

theorem norm_toEuclidean (v : Vec3 ℝ) : ‖v.toEuclidean‖ = v.norm := by
  simp [toEuclidean, EuclideanSpace.norm_eq, Fin.sum_univ_three, norm, normSq, dot, sq]

theorem toEuclidean_add (v w : Vec3 ℝ) :
    (v + w).toEuclidean = v.toEuclidean + w.toEuclidean := by
  ext i
  fin_cases i <;> rfl

theorem toEuclidean_sub (v w : Vec3 ℝ) :
    (v - w).toEuclidean = v.toEuclidean - w.toEuclidean := by
  ext i
  fin_cases i <;> rfl

theorem toEuclidean_smul (a : ℝ) (v : Vec3 ℝ) : (a • v).toEuclidean = a • v.toEuclidean := by
  ext i
  fin_cases i <;> rfl

theorem norm_add_le (v w : Vec3 ℝ) : (v + w).norm ≤ v.norm + w.norm := by
  simp only [← norm_toEuclidean, toEuclidean_add]
  exact norm_add_le_of_le le_rfl le_rfl

/-- The points from `p` straight to `q`. -/
def segment (p q : Vec3 ℝ) : Set (Vec3 ℝ) :=
  {x | ∃ t : ℝ, (0 ≤ t ∧ t ≤ 1) ∧ x = p + t • (q - p)}

/-- The segments between consecutive points, or the only point. -/
def polyline : List (Vec3 ℝ) → Set (Vec3 ℝ)
  | [] => ∅
  | [p] => {p}
  | p :: q :: rest => segment p q ∪ polyline (q :: rest)

/-- The point lies within the tolerance of the set. -/
def IsNear (x : Vec3 ℝ) (s : Set (Vec3 ℝ)) : Prop := ∃ p ∈ s, (x - p).norm ≤ Scalar.tolerance

variable {o p q x : Vec3 ℝ} {s s' : Set (Vec3 ℝ)}

theorem IsNear.mono (h : x.IsNear s) (hs : s ⊆ s') : x.IsNear s' := by
  obtain ⟨p, hp, hnorm⟩ := h
  exact ⟨p, hs hp, hnorm⟩

theorem norm_sub_self_le (p : Vec3 ℝ) : (p - p).norm ≤ Scalar.tolerance := by
  simp [norm, normSq, dot, Scalar.tolerance]

theorem left_mem_segment (p q : Vec3 ℝ) : p ∈ segment p q :=
  ⟨0, ⟨le_rfl, zero_le_one⟩, by ext <;> simp⟩

theorem right_mem_segment (p q : Vec3 ℝ) : q ∈ segment p q :=
  ⟨1, ⟨zero_le_one, le_rfl⟩, by ext <;> simp⟩

theorem add_smul_mem_segment {s t : ℝ} (p v : Vec3 ℝ) (hs : 0 ≤ s) (hst : s ≤ t) :
    p + s • v ∈ segment p (p + t • v) := by
  rcases (hs.trans hst).eq_or_lt with ht | ht
  · obtain rfl : s = t := le_antisymm hst (ht ▸ hs)
    exact right_mem_segment _ _
  · refine ⟨s / t, ⟨div_nonneg hs ht.le, (div_le_one ht).2 hst⟩, ?_⟩
    ext <;>
    · simp
      field_simp

theorem segment_subset (h : q ∈ segment o p) : segment o q ⊆ segment o p := by
  obtain ⟨u, ⟨hu₀, hu₁⟩, rfl⟩ := h
  rintro x ⟨t, ⟨ht₀, ht₁⟩, rfl⟩
  refine ⟨t * u, ⟨mul_nonneg ht₀ hu₀, mul_le_one₀ ht₁ hu₀ hu₁⟩, ?_⟩
  ext <;>
  · simp
    ring

theorem mem_polyline_cons (p : Vec3 ℝ) (rest : List (Vec3 ℝ)) : p ∈ polyline (p :: rest) := by
  cases rest with
  | nil => exact Set.mem_singleton p
  | cons q rest => exact Or.inl (left_mem_segment p q)

/-- A point of a segment is near a segment to the same end whose start is near. -/
theorem isNear_segment (ho : (o - p).norm ≤ Scalar.tolerance) (hx : x ∈ segment o q) :
    x.IsNear (segment p q) := by
  obtain ⟨t, ⟨ht₀, ht₁⟩, rfl⟩ := hx
  refine ⟨p + t • (q - p), ⟨t, ⟨ht₀, ht₁⟩, rfl⟩, ?_⟩
  have hdiff : o + t • (q - o) - (p + t • (q - p)) = (1 - t) • (o - p) := by
    ext <;>
    · simp
      ring
  rw [hdiff, norm_smul, abs_of_nonneg (sub_nonneg.2 ht₁)]
  calc (1 - t) * (o - p).norm ≤ 1 * (o - p).norm :=
        mul_le_mul_of_nonneg_right (by linarith) (Real.sqrt_nonneg _)
    _ ≤ Scalar.tolerance := by rwa [one_mul]

/-- A point between two that are near a third is itself near the third. -/
theorem norm_sub_le_of_mem_segment {r : ℝ} (ho : (o - p).norm ≤ r) (hq : (q - p).norm ≤ r)
    (hx : x ∈ segment o q) : (x - p).norm ≤ r := by
  obtain ⟨t, ⟨ht₀, ht₁⟩, rfl⟩ := hx
  have hdiff : o + t • (q - o) - p = (1 - t) • (o - p) + t • (q - p) := by
    ext <;>
    · simp
      ring
  calc (o + t • (q - o) - p).norm
      ≤ (1 - t) * (o - p).norm + t * (q - p).norm := by
        rw [hdiff]
        refine (norm_add_le _ _).trans_eq ?_
        rw [norm_smul, norm_smul, abs_of_nonneg (sub_nonneg.2 ht₁), abs_of_nonneg ht₀]
    _ ≤ (1 - t) * r + t * r :=
        add_le_add (mul_le_mul_of_nonneg_left ho (sub_nonneg.2 ht₁))
          (mul_le_mul_of_nonneg_left hq ht₀)
    _ = r := by ring

end ProceduralTree.Vec3
