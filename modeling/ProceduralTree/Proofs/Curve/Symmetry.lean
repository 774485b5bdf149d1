import ProceduralTree.Proofs.Curve.Frames
import ProceduralTree.Proofs.Curve.Interpolation
import ProceduralTree.Proofs.Curve.Knots

/-!
# Symmetries of splines

A spline is made of the differences and the distances of its control points. So it does not matter
whether a map that keeps all distances is applied to the control points or to the spline. In
reverse order the control points make the same spline run backwards, if no parameter distance is
replaced: what replaces one comes from one side of the span only.

## Main definitions

* `Vec3.KeepsDistances` — motions and reflections of space.
* `Spline.map`, `Spline.reverse` — the spline through moved control points, and through the control
  points in reverse order.

## Main statements

* `Vec3.KeepsDistances.exists_isLinear` — a map that keeps distances is linear up to a move.
* `Span.eval_map`, `Span.eval_flip` — the cubic of one span.
* `Spline.curve_symmetries` — the whole spline.
-/

namespace ProceduralTree

/-! ## Motions of space -/

namespace Vec3

/-- The map is a motion of space, or a motion and a reflection. -/
def KeepsDistances (f : Vec3 ℝ → Vec3 ℝ) : Prop := ∀ p q, (f p - f q).norm = (p - q).norm

structure IsLinear (L : Vec3 ℝ → Vec3 ℝ) : Prop where
  add : ∀ v w, L (v + w) = L v + L w
  smul : ∀ (a : ℝ) v, L (a • v) = a • L v

namespace IsLinear

variable {L : Vec3 ℝ → Vec3 ℝ} (hL : IsLinear L)

include hL

theorem sub (v w : Vec3 ℝ) : L (v - w) = L v - L w := by
  have hsub (v w : Vec3 ℝ) : v - w = v + (-1 : ℝ) • w := by ext <;> simp [sub_eq_add_neg]
  rw [hsub, hL.add, hL.smul, ← hsub]

theorem div (v : Vec3 ℝ) (a : ℝ) : L (v / a) = L v / a := by
  rw [div_eq_inv_smul, hL.smul, ← div_eq_inv_smul]

end IsLinear

theorem map_add_of_map_sub {f L : Vec3 ℝ → Vec3 ℝ} (hdiff : ∀ p q, f p - f q = L (p - q))
    (p v : Vec3 ℝ) : f (p + v) = f p + L v := by
  have hmove : p + v - p = v := by ext <;> simp
  rw [← hmove, ← hdiff, hmove]
  ext <;> simp

/-- The reflection of `q` in `p`. -/
theorem sub_sub_eq_add_sub (p q : Vec3 ℝ) : p - (q - p) = p + (p - q) := by
  ext <;>
  · simp
    ring

/-- The vector with the given coordinates. -/
noncomputable def ofEuclidean (v : EuclideanSpace ℝ (Fin 3)) : Vec3 ℝ := ⟨v 0, v 1, v 2⟩

theorem toEuclidean_ofEuclidean (v : EuclideanSpace ℝ (Fin 3)) :
    (ofEuclidean v).toEuclidean = v := by
  ext i
  fin_cases i <;> rfl

theorem ofEuclidean_toEuclidean (v : Vec3 ℝ) : ofEuclidean v.toEuclidean = v := rfl

/-- A map that keeps distances is linear but for the image of the origin. -/
theorem KeepsDistances.exists_isLinear {f : Vec3 ℝ → Vec3 ℝ} (hf : KeepsDistances f) :
    ∃ L, IsLinear L ∧ ∀ p q, f p - f q = L (p - q) := by
  have hiso : Isometry fun v => (f (ofEuclidean v)).toEuclidean := by
    refine Isometry.of_dist_eq fun v w => ?_
    rw [dist_eq_norm, ← toEuclidean_sub, norm_toEuclidean, hf, ← norm_toEuclidean, toEuclidean_sub,
      toEuclidean_ofEuclidean, toEuclidean_ofEuclidean, dist_eq_norm]
  let A := hiso.affineIsometryOfStrictConvexSpace.linearIsometry
  refine ⟨fun v => ofEuclidean (A v.toEuclidean), ⟨fun v w => ?_, fun a v => ?_⟩, fun p q => ?_⟩
  · rw [toEuclidean_add, map_add]
    rfl
  · rw [toEuclidean_smul, map_smul]
    rfl
  · have hsub := hiso.affineIsometryOfStrictConvexSpace.map_vsub p.toEuclidean q.toEuclidean
    rw [vsub_eq_sub, vsub_eq_sub, ← toEuclidean_sub] at hsub
    change _ = ofEuclidean (A _)
    rw [hsub]
    change _ = ofEuclidean ((f p).toEuclidean - (f q).toEuclidean)
    rw [← toEuclidean_sub, ofEuclidean_toEuclidean]

end Vec3

/-! ## Spans -/

namespace Span

/-- The span through the images of the points. -/
def map {α : Type} (f : Vec3 α → Vec3 α) (s : Span α) : Span α :=
  ⟨f s.before, f s.start, f s.stop, f s.after⟩

/-- The span through the points in reverse order. -/
def flip {α : Type} (s : Span α) : Span α := ⟨s.after, s.stop, s.start, s.before⟩

section Motion

variable {f L : Vec3 ℝ → Vec3 ℝ} (hf : Vec3.KeepsDistances f)

include hf

theorem knots_map (s : Span ℝ) : (s.map f).knots = s.knots := by
  simp only [knots, map, hf _ _]

variable (hL : Vec3.IsLinear L) (hdiff : ∀ p q, f p - f q = L (p - q))

include hL hdiff

theorem startTangent_map (s : Span ℝ) : (s.map f).startTangent = L s.startTangent := by
  rw [startTangent, knots_map hf]
  simp only [map, hdiff, ← hL.div, ← hL.sub, ← hL.add, ← hL.smul]
  rfl

theorem stopTangent_map (s : Span ℝ) : (s.map f).stopTangent = L s.stopTangent := by
  rw [stopTangent, knots_map hf]
  simp only [map, hdiff, ← hL.div, ← hL.sub, ← hL.add, ← hL.smul]
  rfl

theorem eval_map (s : Span ℝ) (t : ℝ) : (s.map f).cubic.eval t = f (s.cubic.eval t) := by
  rw [eval_eq, eval_eq, startTangent_map hf hL hdiff, stopTangent_map hf hL hdiff,
    Vec3.map_add_of_map_sub hdiff]
  simp only [map, hdiff, ← hL.smul, ← hL.add]

end Motion

section Flip

variable {s : Span ℝ}

theorem distances_flip (s : Span ℝ) :
    s.flip.distances = ⟨s.distances.last, s.distances.middle, s.distances.first⟩ := by
  simp only [distances, flip, Vec3.norm_sub_comm]

/-- Only distances that are kept are the same from both sides. -/
theorem knots_flip (h : s.KeepsKnots) :
    s.flip.knots = ⟨s.knots.last, s.knots.middle, s.knots.first⟩ := by
  have hflip : s.flip.KeepsKnots := by
    constructor <;> rw [distances_flip]
    exacts [h.last, h.middle, h.first]
  rw [hflip.knots_eq, h.knots_eq, distances_flip]

theorem startTangent_flip (h : s.KeepsKnots) : s.flip.startTangent = (-1 : ℝ) • s.stopTangent := by
  rw [startTangent, knots_flip h, stopTangent]
  ext <;>
  · simp [flip]
    ring

theorem stopTangent_flip (h : s.KeepsKnots) : s.flip.stopTangent = (-1 : ℝ) • s.startTangent := by
  rw [stopTangent, knots_flip h, startTangent]
  ext <;>
  · simp [flip]
    ring

theorem eval_flip (h : s.KeepsKnots) (t : ℝ) : s.flip.cubic.eval t = s.cubic.eval (1 - t) := by
  rw [eval_eq, eval_eq, startTangent_flip h, stopTangent_flip h]
  ext <;>
  · simp [flip]
    ring

end Flip

end Span

/-! ## Splines -/

namespace Spline

/-- The spline through the images of the control points. -/
def map {α : Type} (f : Vec3 α → Vec3 α) (s : Spline α) : Spline α :=
  ⟨s.points.map f, s.two_le.trans_eq Array.size_map.symm⟩

/-- The spline through the control points in reverse order. -/
def reverse {α : Type} (s : Spline α) : Spline α :=
  ⟨s.points.reverse, s.two_le.trans_eq Array.size_reverse.symm⟩

variable {s : Spline ℝ}

/-- The image of a reflected neighbour is the reflection of the images. -/
theorem span_map {f L : Vec3 ℝ → Vec3 ℝ} (hdiff : ∀ p q, f p - f q = L (p - q)) {k : Nat}
    (hk : k + 1 < s.points.size) (hk' : k + 1 < (s.map f).points.size) :
    (s.map f).span k hk' = (s.span k hk).map f := by
  have hadd (p q r : Vec3 ℝ) : f p + (f q - f r) = f (p + (q - r)) := by
    rw [Vec3.map_add_of_map_sub hdiff, hdiff]
  simp only [span, map, Span.map, Array.getElem_map, Array.size_map, Vec3.sub_sub_eq_add_sub, hadd,
    apply_ite f, apply_dite f]

theorem point_map {f : Vec3 ℝ → Vec3 ℝ} (hf : Vec3.KeepsDistances f) (s : Spline ℝ) (x : ℝ) :
    (s.map f).point x = f (s.point x) := by
  obtain ⟨L, hL, hdiff⟩ := hf.exists_isLinear
  have hsize : (s.map f).points.size = s.points.size := Array.size_map
  have hscaled : (s.map f).scaled x = s.scaled x := by rw [scaled, scaled, hsize]
  have hindex : (s.map f).spanIndex x = s.spanIndex x := by
    rw [spanIndex, spanIndex, hscaled, hsize]
  have hk := s.spanIndex_succ_lt x
  rw [point_of_spanIndex_eq (hsize ▸ hk) hindex, span_map hdiff hk, Span.eval_map hf hL hdiff,
    hscaled, point_of_spanIndex_eq hk rfl]

/-- The spans in reverse order have their points in reverse order, the reflected ones included. -/
theorem span_reverse {j k : Nat} (hj : j + 1 < s.points.size)
    (hk : k + 1 < s.reverse.points.size) (hjk : j + k + 2 = s.points.size) :
    s.reverse.span k hk = (s.span j hj).flip := by
  have hstart : s.points.size - 1 - k = j + 1 := by omega
  have hstop : s.points.size - 1 - (k + 1) = j := by omega
  simp only [span, reverse, Span.flip, Array.getElem_reverse, Array.size_reverse, Span.mk.injEq,
    hstart, hstop, true_and]
  constructor
  · by_cases h : 0 < k
    · have hbefore : s.points.size - 1 - (k - 1) = j + 2 := by omega
      have hafter : j + 2 < s.points.size := by omega
      simp only [h, hafter, if_pos, dif_pos, hbefore]
    · have hafter : ¬j + 2 < s.points.size := by omega
      simp only [h, hafter, if_neg, dif_neg, Vec3.sub_sub_eq_add_sub, not_false_iff]
  · by_cases h : 0 < j
    · have hbefore : s.points.size - 1 - (k + 2) = j - 1 := by omega
      have hafter : k + 2 < s.points.size := by omega
      simp only [h, hafter, if_pos, dif_pos, hbefore]
    · have hafter : ¬k + 2 < s.points.size := by omega
      simp only [h, hafter, if_neg, dif_neg, Vec3.sub_sub_eq_add_sub, not_false_iff]

theorem point_reverse (hkeeps : ∀ {k} (hk : k + 1 < s.points.size), (s.span k hk).KeepsKnots)
    {x : ℝ} (h₀ : 0 ≤ x) (h₁ : x ≤ 1) : s.reverse.point x = s.point (1 - x) := by
  obtain ⟨⟨k, hk⟩, hlow, hhigh⟩ := Set.mem_iUnion.1 (s.reverse.Icc_subset_iUnion_stretch ⟨h₀, h₁⟩)
  have hsize : s.reverse.points.size = s.points.size := Array.size_reverse
  obtain ⟨j, hjk⟩ : ∃ j, j + k + 2 = s.points.size := ⟨s.points.size - (k + 2), by omega⟩
  have hj : j + 1 < s.points.size := by omega
  have hscaled : s.scaled (1 - x) = j + 1 - (s.reverse.scaled x - k) := by
    have hedges : s.points.size - 1 = j + k + 1 := by omega
    simp only [scaled, hsize, hedges]
    push_cast
    ring
  rw [point_eq_eval (Nat.add_lt_of_lt_sub hk) hlow hhigh, span_reverse hj _ hjk,
    Span.eval_flip (hkeeps hj), point_eq_eval hj (by rw [hscaled]; linarith)
      (by rw [hscaled]; linarith), hscaled]
  congr 1
  ring

/-- Moved or reflected control points make the moved or reflected spline. If the control points keep
apart, then in reverse order they make the spline that runs backwards. -/
theorem curve_symmetries (s : Spline ℝ) :
    (∀ x, 0 ≤ x → x ≤ 1 → s.curve x = .ok (s.point x)) ∧
    (∀ f, Vec3.KeepsDistances f → ∀ x, 0 ≤ x → x ≤ 1 →
      (s.map f).curve x = .ok (f (s.point x))) ∧
    ((∀ k (_ : k < s.points.size) (_ : k + 1 < s.points.size),
        1 / 1000000000000 ≤ (s.points[k + 1] - s.points[k]).norm) →
      ∀ x, 0 ≤ x → x ≤ 1 → s.reverse.curve x = .ok (s.point (1 - x))) := by
  refine ⟨fun x h₀ h₁ => Curve.ofPoint_eq_ok ⟨h₀, h₁⟩, fun f hf x h₀ h₁ => ?_, ?_⟩
  · rw [← point_map hf]
    exact Curve.ofPoint_eq_ok ⟨h₀, h₁⟩
  · intro hapart x h₀ h₁
    have hkeeps {k : Nat} (hk : k + 1 < s.points.size) : (s.span k hk).KeepsKnots :=
      keepsKnots_of_le_norm (fun k hk => hapart k (Nat.lt_of_succ_lt hk) hk) hk
    rw [← point_reverse hkeeps h₀ h₁]
    exact Curve.ofPoint_eq_ok ⟨h₀, h₁⟩

/-- Two edges of equal length at a right angle. -/
noncomputable def corner : Spline ℝ := ⟨#[0, .xAxis, ⟨1, 1, 0⟩], Nat.le_add_right 2 1⟩

/-- The reflection in the plane across the X axis, and one step up. -/
noncomputable def mirrored (p : Vec3 ℝ) : Vec3 ℝ := ⟨-p.x, p.y + 1, p.z⟩

theorem curve_symmetries_corner : ∃ p, corner.curve (1 / 4) = .ok p ∧
    (corner.map mirrored).curve (1 / 4) = .ok (mirrored p) ∧
    corner.reverse.curve (3 / 4) = .ok p := by
  obtain ⟨hcurve, hmap, hreverse⟩ := curve_symmetries corner
  have hmirrored : Vec3.KeepsDistances mirrored := by
    intro p q
    have hsq : (mirrored p - mirrored q).normSq = (p - q).normSq := by
      simp only [Vec3.normSq, Vec3.dot, mirrored, Vec3.sub_x, Vec3.sub_y, Vec3.sub_z]
      ring
    rw [Vec3.norm, hsq]
    rfl
  have hapart : ∀ k (_ : k < corner.points.size) (_ : k + 1 < corner.points.size),
      1 / 1000000000000 ≤ (corner.points[k + 1] - corner.points[k]).norm := by
    intro k _ hk
    have hk : k < 2 := Nat.lt_of_succ_lt_succ hk
    interval_cases k <;> norm_num [corner, Vec3.norm, Vec3.normSq, Vec3.dot, Vec3.xAxis]
  have hback : (1 : ℝ) - 3 / 4 = 1 / 4 := by norm_num
  have hmap_quarter := hmap _ hmirrored (1 / 4) (by norm_num) (by norm_num)
  refine ⟨_, hcurve _ (by norm_num) (by norm_num), hmap_quarter, ?_⟩
  rw [← hback]
  exact hreverse hapart _ (by norm_num) (by norm_num)

end Spline

end ProceduralTree
