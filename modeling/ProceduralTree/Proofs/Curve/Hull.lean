import ProceduralTree.Proofs.Curve.Segment
import ProceduralTree.Proofs.Curve.Symmetry

/-!
# Where splines lie

Each point of a spline is made of the control points of one span, of which there are at most four,
with weights that sum to one. All of them are there, and no parameter distance that divides is too
small to divide by, however many control points coincide. Control points at even distances on a line
make a spline that runs along the line at an even pace.

## Main definitions

* `Span.ofPoints?`, `Spline.pointOf?` — a span and a point of a spline by checked reads.
* `Spline.around`, `Spline.hull` — the control points around an edge, and what they span.

## Main statements

* `Span.sampleStep_le_divisors` — what a span divides by.
* `Spline.pointOf?_eq` — no read of a control point is out of range.
* `Spline.exists_weights` — the weights of the control points.
* `Spline.curve_hull` — all of this, and evenly spaced control points.
-/

namespace ProceduralTree

open Vec3

/-! ## Divisors -/

theorem Knots.sampleStep_le_orElse {d spare : ℝ} (h : sampleStep ≤ spare) :
    sampleStep ≤ orElse d spare := by
  rw [orElse]
  split_ifs with hd
  · exact h
  · exact not_lt.1 hd

/-- The distances between the points of a span that are divided by. -/
def Knots.divisors {α : Type} [Scalar α] (d : Knots α) : List α :=
  [d.first, d.middle, d.last, d.first + d.middle, d.middle + d.last]

/-- Each parameter distance is large enough or replaced by one that is. -/
theorem Span.sampleStep_le_divisors (s : Span ℝ) {d : ℝ} (hd : d ∈ s.knots.divisors) :
    sampleStep ≤ d := by
  have hstep : (0 : ℝ) < sampleStep := sampleStep_pos
  have hfirst : sampleStep ≤ s.knots.first :=
    Knots.sampleStep_le_orElse (by norm_num [sampleStep])
  have hmiddle : sampleStep ≤ s.knots.middle := Knots.sampleStep_le_orElse hfirst
  have hlast : sampleStep ≤ s.knots.last := Knots.sampleStep_le_orElse hmiddle
  simp only [Knots.divisors, List.mem_cons, List.not_mem_nil, or_false] at hd
  rcases hd with rfl | rfl | rfl | rfl | rfl <;> linarith

/-! ## Checked reads -/

section Reads

variable {α : Type} [Scalar α]

/-- The span between control points `k` and `k + 1`, if all points that are read for it exist. -/
def Span.ofPoints? (points : Array (Vec3 α)) (k : Nat) : Option (Span α) := do
  let start ← points[k]?
  let stop ← points[k + 1]?
  let before ← (if 0 < k then points[k - 1]? else some (start - (stop - start)))
  let after ← (if k + 2 < points.size then points[k + 2]? else some (stop + (stop - start)))
  return { before, start, stop, after }

/-- The point at `x` of the spline through the points, if all points that are read for it exist. -/
def Spline.pointOf? (points : Array (Vec3 α)) (x : α) : Option (Vec3 α) :=
  let scaled := (points.size - 1 : Nat) * x
  let k := min (Scalar.floor scaled) (points.size - 2)
  (Span.ofPoints? points k).map fun span => span.cubic.eval (scaled - k)

theorem Spline.ofPoints?_eq (s : Spline α) {k : Nat} (hk : k + 1 < s.points.size) :
    Span.ofPoints? s.points k = some (s.span k hk) := by
  have hread {i : Nat} (hi : i < s.points.size) : s.points[i]? = some s.points[i] :=
    Array.getElem?_eq_getElem hi
  have hbefore : (if 0 < k then s.points[k - 1]?
      else some (s.points[k] - (s.points[k + 1] - s.points[k]))) = some (s.span k hk).before := by
    by_cases h : 0 < k
    · rw [if_pos h, hread (by omega)]
      simp only [span, if_pos h]
    · simp only [span, if_neg h]
  have hafter : (if k + 2 < s.points.size then s.points[k + 2]?
      else some (s.points[k + 1] + (s.points[k + 1] - s.points[k]))) =
        some (s.span k hk).after := by
    by_cases h : k + 2 < s.points.size
    · rw [if_pos h, hread h]
      simp only [span, dif_pos h]
    · simp only [span, if_neg h, dif_neg h]
  simp only [Span.ofPoints?, hread hk, hread (Nat.lt_of_succ_lt hk), bind, Option.bind, hbefore,
    hafter]
  rfl

theorem Spline.pointOf?_eq (s : Spline α) (x : α) : pointOf? s.points x = some (s.point x) := by
  have hspan := s.ofPoints?_eq (s.spanIndex_succ_lt x)
  exact congrArg (Option.map _) hspan

end Reads

/-! ## Weights -/

section Hull

variable {Q : AffineSubspace ℝ (EuclideanSpace ℝ (Fin 3))}

/-- What contains the four points of a span contains its cubic. -/
theorem Span.eval_mem {s : Span ℝ} (hbefore : s.before.toEuclidean ∈ Q)
    (hstart : s.start.toEuclidean ∈ Q) (hstop : s.stop.toEuclidean ∈ Q)
    (hafter : s.after.toEuclidean ∈ Q) (t : ℝ) : (s.cubic.eval t).toEuclidean ∈ Q := by
  have hsmul (a : ℝ) {v : Vec3 ℝ} (hv : v.toEuclidean ∈ Q.direction) :
      (a • v).toEuclidean ∈ Q.direction := by
    rw [toEuclidean_smul]
    exact Q.direction.smul_mem a hv
  have hadd {v w : Vec3 ℝ} (hv : v.toEuclidean ∈ Q.direction) (hw : w.toEuclidean ∈ Q.direction) :
      (v + w).toEuclidean ∈ Q.direction := by
    rw [toEuclidean_add]
    exact Q.direction.add_mem hv hw
  have hsub {v w : Vec3 ℝ} (hv : v.toEuclidean ∈ Q.direction) (hw : w.toEuclidean ∈ Q.direction) :
      (v - w).toEuclidean ∈ Q.direction := by
    rw [toEuclidean_sub]
    exact Q.direction.sub_mem hv hw
  have hedge {p q : Vec3 ℝ} (a : ℝ) (hp : p.toEuclidean ∈ Q) (hq : q.toEuclidean ∈ Q) :
      ((q - p) / a).toEuclidean ∈ Q.direction := by
    rw [div_eq_inv_smul, toEuclidean_smul, toEuclidean_sub]
    exact Q.direction.smul_mem _ (Q.vsub_mem_direction hq hp)
  have hstartTangent : s.startTangent.toEuclidean ∈ Q.direction :=
    hsmul _ (hadd (hsub (hedge _ hbefore hstart) (hedge _ hbefore hstop)) (hedge _ hstart hstop))
  have hstopTangent : s.stopTangent.toEuclidean ∈ Q.direction :=
    hsmul _ (hadd (hsub (hedge _ hstart hstop) (hedge _ hstart hafter)) (hedge _ hstop hafter))
  have hchord : (s.stop - s.start).toEuclidean ∈ Q.direction := by
    rw [toEuclidean_sub]
    exact Q.vsub_mem_direction hstop hstart
  rw [eval_eq, toEuclidean_add, add_comm]
  exact AffineSubspace.vadd_mem_of_mem_direction
    (hadd (hadd (hsmul _ hchord) (hsmul _ hstartTangent)) (hsmul _ hstopTangent)) hstart

namespace Spline

/-- The numbers of the control points at the ends of edge `k` and next to them. -/
def around (s : Spline ℝ) (k : Nat) : Set (Fin s.points.size) :=
  {i | k ≤ (i : Nat) + 1 ∧ (i : Nat) ≤ k + 2}

/-- The affine hull of the control points around edge `k`. -/
noncomputable def hull (s : Spline ℝ) (k : Nat) : AffineSubspace ℝ (EuclideanSpace ℝ (Fin 3)) :=
  affineSpan ℝ ((fun i : Fin s.points.size => s.points[i].toEuclidean) '' s.around k)

variable {s : Spline ℝ} {k : Nat}

/-- What contains the control points around an edge contains the whole span: reflected neighbours
lie on the line through the ends of the edge. -/
theorem eval_span_mem (hk : k + 1 < s.points.size)
    (hQ : ∀ i ∈ s.around k, s.points[i].toEuclidean ∈ Q) (t : ℝ) :
    ((s.span k hk).cubic.eval t).toEuclidean ∈ Q := by
  have hmem {i : Nat} (hi : i < s.points.size) (hlow : k ≤ i + 1) (hhigh : i ≤ k + 2) :
      s.points[i].toEuclidean ∈ Q := hQ ⟨i, hi⟩ ⟨hlow, hhigh⟩
  have hstart : (s.span k hk).start.toEuclidean ∈ Q :=
    hmem (Nat.lt_of_succ_lt hk) (Nat.le_succ k) (Nat.le_add_right k 2)
  have hstop : (s.span k hk).stop.toEuclidean ∈ Q := hmem hk (by omega) (Nat.le_succ (k + 1))
  have hreflect {p q : Vec3 ℝ} (hp : p.toEuclidean ∈ Q) (hq : q.toEuclidean ∈ Q) :
      (q + (q - p)).toEuclidean ∈ Q := by
    rw [toEuclidean_add, toEuclidean_sub, add_comm]
    exact AffineSubspace.vadd_mem_of_mem_direction (Q.vsub_mem_direction hq hp) hq
  refine Span.eval_mem ?_ hstart hstop ?_ t
  · by_cases h : 0 < k
    · simp only [span, if_pos h]
      have hfirst : k - 1 < s.points.size := by omega
      exact hmem hfirst (by omega) (by omega)
    · simp only [span, if_neg h, Vec3.sub_sub_eq_add_sub]
      exact hreflect hstop hstart
  · by_cases h : k + 2 < s.points.size
    · simp only [span, dif_pos h]
      exact hmem h (by omega) le_rfl
    · simp only [span, dif_neg h]
      exact hreflect hstart hstop

theorem card_le_four {indices : Finset (Fin s.points.size)} (h : ↑indices ⊆ s.around k) :
    indices.card ≤ 4 := by
  have hmaps : ∀ i ∈ indices, (i : Nat) + 1 ∈ Finset.Icc k (k + 3) := fun i hi =>
    Finset.mem_Icc.2 ⟨(h hi).1, Nat.succ_le_succ (h hi).2⟩
  have hinj : Set.InjOn (fun i : Fin s.points.size => (i : Nat) + 1) indices := fun i _ j _ hij =>
    Fin.ext (Nat.succ_injective hij)
  calc indices.card ≤ (Finset.Icc k (k + 3)).card := Finset.card_le_card_of_injOn _ hmaps hinj
    _ = 4 := by rw [Nat.card_Icc, Nat.add_assoc, Nat.add_sub_cancel_left]

theorem eval_mem_hull (hk : k + 1 < s.points.size) (t : ℝ) :
    ((s.span k hk).cubic.eval t).toEuclidean ∈ s.hull k :=
  eval_span_mem (Q := s.hull k) hk (fun i hi => subset_affineSpan ℝ _ ⟨i, hi, rfl⟩) t

/-- A point of an edge, as a weighted mean of the control points around the edge. -/
theorem exists_weights (hk : k + 1 < s.points.size) (t : ℝ) :
    ∃ (indices : Finset (Fin s.points.size)) (w : Fin s.points.size → ℝ),
      ↑indices ⊆ s.around k ∧ ∑ i ∈ indices, w i = 1 ∧
      ((s.span k hk).cubic.eval t).toEuclidean =
        ∑ i ∈ indices, w i • s.points[i].toEuclidean := by
  obtain ⟨indices, w, hindices, hsum, heval⟩ :=
    eq_affineCombination_of_mem_affineSpan_image (eval_mem_hull hk t)
  rw [Finset.affineCombination_eq_linear_combination _ _ _ hsum] at heval
  exact ⟨indices, w, hindices, hsum, heval⟩

/-! ## Even distances -/

variable {a v : Vec3 ℝ}

/-- Control points at even distances have the neighbours that a straight line has, reflected or
not. -/
theorem span_eq_straight (heven : ∀ k (h : k < s.points.size), s.points[k] = a + (k : ℝ) • v)
    (hk : k + 1 < s.points.size) :
    s.span k hk = .straight (a + (k : ℝ) • v) (a + (k : ℝ) • v + v) := by
  have hstep (j : Nat) : a + ((j + 1 : Nat) : ℝ) • v = a + (j : ℝ) • v + v := by
    ext <;>
    · simp
      ring
  have hback (p : Vec3 ℝ) : p + v - v = p := by ext <;> simp
  have hedge (p : Vec3 ℝ) : p + v - p = v := by ext <;> simp
  have hstart := heven k (Nat.lt_of_succ_lt hk)
  have hstop := (heven (k + 1) hk).trans (hstep k)
  simp only [span, Span.straight, Span.mk.injEq, hstart, hstop, hedge, true_and]
  constructor
  · cases k with
    | zero => rfl
    | succ j =>
      rw [if_pos j.succ_pos]
      have hprev : s.points[j + 1 - 1] = a + (j : ℝ) • v := heven j (by omega)
      rw [hprev, hstep, hback]
  · split_ifs with h
    · exact (heven (k + 2) h).trans ((hstep (k + 1)).trans (by rw [hstep]))
    · rfl

theorem point_of_even (heven : ∀ k (h : k < s.points.size), s.points[k] = a + (k : ℝ) • v) (x : ℝ) :
    s.point x = a + s.scaled x • v := by
  rw [point, span_eq_straight heven, Span.eval_straight]
  ext <;>
  · simp
    ring

/-! ## The whole spline -/

/-- At each parameter all control points that are read exist, and the spline is a weighted mean of
at most four of them, those around one edge. What is divided by is never small. Control points at
even distances on a line, or all in one place, make the line at an even pace. -/
theorem curve_hull (s : Spline ℝ) :
    (∀ x, 0 ≤ x → x ≤ 1 → ∃ p, s.curve x = .ok p ∧ pointOf? s.points x = some p ∧
      s.spanIndex x ≤ s.scaled x ∧ s.scaled x ≤ s.spanIndex x + 1 ∧
      (∃ (indices : Finset (Fin s.points.size)) (w : Fin s.points.size → ℝ),
        ↑indices ⊆ s.around (s.spanIndex x) ∧ indices.card ≤ 4 ∧ ∑ i ∈ indices, w i = 1 ∧
        p.toEuclidean = ∑ i ∈ indices, w i • s.points[i].toEuclidean) ∧
      p.toEuclidean ∈ s.hull (s.spanIndex x)) ∧
    (∀ k (hk : k + 1 < s.points.size), ∀ d ∈ (s.span k hk).knots.divisors, sampleStep ≤ d) ∧
    ∀ a v, (∀ k (h : k < s.points.size), s.points[k] = a + (k : ℝ) • v) →
      ∀ x, 0 ≤ x → x ≤ 1 → s.curve x = .ok (a + (((s.points.size - 1 : Nat) : ℝ) * x) • v) := by
  refine ⟨fun x h₀ h₁ => ?_, fun k hk _ hd => (s.span k hk).sampleStep_le_divisors hd,
    fun a v heven x h₀ h₁ => ?_⟩
  · obtain ⟨hlow, hhigh⟩ := s.mem_stretch_spanIndex h₀ h₁
    obtain ⟨indices, w, hindices, hsum, hpoint⟩ :=
      exists_weights (s.spanIndex_succ_lt x) (s.scaled x - s.spanIndex x)
    exact ⟨s.point x, Curve.ofPoint_eq_ok ⟨h₀, h₁⟩, s.pointOf?_eq x, hlow, hhigh,
      ⟨indices, w, hindices, card_le_four hindices, hsum, hpoint⟩,
      eval_mem_hull _ _⟩
  · rw [← scaled, ← point_of_even heven]
    exact Curve.ofPoint_eq_ok ⟨h₀, h₁⟩

/-- A spline that stays in one place for an edge, as `pause`, and one that runs along an axis. -/
theorem curve_hull_pause :
    (∃ p, pause.curve (1 / 2) = .ok p ∧ pointOf? pause.points (1 / 2) = some p ∧
      p.toEuclidean ∈ pause.hull (pause.spanIndex (1 / 2))) ∧
    (segment (0 : Vec3 ℝ) .yAxis).curve (1 / 4) =
      .ok (0 + (((2 - 1 : Nat) : ℝ) * (1 / 4)) • .yAxis) := by
  refine ⟨?_, ?_⟩
  · obtain ⟨p, hcurve, hread, -, -, -, hhull⟩ :=
      (curve_hull pause).1 (1 / 2) (by norm_num) (by norm_num)
    exact ⟨p, hcurve, hread, hhull⟩
  · refine (curve_hull (.segment 0 .yAxis)).2.2 0 .yAxis (fun k hk => ?_) _ (by norm_num)
      (by norm_num)
    have hk : k < 2 := hk
    interval_cases k <;> ext <;> simp [segment]

end Spline

end Hull

end ProceduralTree
