import ProceduralTree.Proofs.Mesh.MergedNormals
import ProceduralTree.Proofs.Space.Triangles

/-!
# Vertex normals by deposits

A face that is not negligible deposits a vector at each of its corners, and the normal of a vertex
is the direction of the sum of what is deposited there. In exact arithmetic the order of deposits
does not matter, so all that counts is which deposits there are: the same for a face whose corners
are turned round, the opposite ones for a face that is wound the other way, none for one that is
negligible.

## Main definitions

* `Face.IsNegligible` — a face that refers to no vertex, or has next to no area.
* `Face.deposits` — what a face adds, and to which sums.
* `vertexNormals?` — the normals, with every access to a sum checked.

## Main statements

* `vertexNormals_eq` — the normals by the deposits of all faces.
* `Face.perm_deposits_rotate`, `Face.perm_deposits_reverse` — deposits of a face by its corners.
* `vertexNormals_of_perm` — the order of the deposits does not matter.
* `vertexNormals_invariant` — what normals are like, and what they depend on.
-/

namespace ProceduralTree

open Vec3

/-! ## Deposits -/

section Deposits

variable {α : Type} [Scalar α] {positions sums : Array (Vec3 α)} {f : Face}

namespace Face

/-- The face with its corners turned round by one. -/
def rotate (f : Face) : Face := ⟨f.b, f.c, f.a⟩

/-- The face wound the other way round. -/
def reverse (f : Face) : Face := ⟨f.a, f.c, f.b⟩

/-- Whether a corner has no position, or the face has next to no area: the length of the cross
product is twice the area. -/
def IsNegligible (positions : Array (Vec3 α)) (f : Face) : Prop :=
  (∃ i ∈ f.corners, positions.size ≤ i.toNat) ∨
    ∃ p q r, f.corners? positions = some (p, q, r) ∧
      ((q - p).cross (r - p)).norm ≤ Scalar.tolerance

/-- The vectors that a face adds, with the numbers of the vertices it adds them to. -/
def deposits (positions : Array (Vec3 α)) (f : Face) : List (Nat × Vec3 α) :=
  match f.corners? positions with
  | none => []
  | some (p, q, r) =>
    match unitNormal? p q r with
    | none => []
    | some n =>
      [(f.a.toNat, (q - p).angle (r - p) • n), (f.b.toNat, (r - q).angle (p - q) • n),
        (f.c.toNat, (p - r).angle (q - r) • n)]

end Face

def deposit (sums : Array (Vec3 α)) (d : Nat × Vec3 α) : Array (Vec3 α) :=
  sums.modify d.1 (· + d.2)

/-- As `deposit`, but there has to be a sum to add to. -/
def deposit? (sums : Array (Vec3 α)) (d : Nat × Vec3 α) : Option (Array (Vec3 α)) :=
  if d.1 < sums.size then some (deposit sums d) else none

/-- The deposits of all faces in order. -/
def depositsOf (positions : Array (Vec3 α)) (faces : Array Face) : List (Nat × Vec3 α) :=
  faces.toList.flatMap (Face.deposits positions)

/-- The direction of a sum, or zero if the sum is too short to have one. -/
def directionOf (sum : Vec3 α) : Vec3 α := (sum.normalize? Scalar.tolerance).getD 0

/-- As `vertexNormals`, but every access to a sum is checked. -/
def vertexNormals? (positions : Array (Vec3 α)) (faces : Array Face) :
    Option (Array (Vec3 α)) :=
  ((depositsOf positions faces).foldlM deposit? (.replicate positions.size 0)).map
    (Array.map directionOf)

@[simp] theorem size_deposit (sums : Array (Vec3 α)) (d : Nat × Vec3 α) :
    (deposit sums d).size = sums.size := Array.size_modify

theorem addFaceNormal_eq (positions sums : Array (Vec3 α)) (f : Face) :
    addFaceNormal positions sums f = (f.deposits positions).foldl deposit sums := by
  simp only [addFaceNormal, Face.deposits]
  obtain hcorners | ⟨⟨p, q, r⟩, hcorners⟩ := Option.eq_none_or_eq_some (f.corners? positions)
  · simp only [hcorners, List.foldl_nil]
  · simp only [hcorners]
    cases unitNormal? p q r <;> rfl

/-- The normals by the deposits of all faces. -/
theorem vertexNormals_eq (positions : Array (Vec3 α)) (faces : Array Face) :
    vertexNormals positions faces =
      ((depositsOf positions faces).foldl deposit (.replicate positions.size 0)).map
        directionOf := by
  have hstep : addFaceNormal positions =
      fun sums f => (f.deposits positions).foldl deposit sums :=
    funext fun sums => funext fun f => addFaceNormal_eq positions sums f
  rw [vertexNormals, ← Array.foldl_toList, hstep, depositsOf, List.foldl_flatMap]
  rfl

theorem Face.exists_corner_of_mem_deposits {d : Nat × Vec3 α} (hd : d ∈ f.deposits positions) :
    ∃ i ∈ f.corners, d.1 = i.toNat := by
  unfold deposits at hd
  split at hd
  · cases hd
  · split at hd
    · cases hd
    · simp only [List.mem_cons, List.not_mem_nil, or_false] at hd
      rcases hd with rfl | rfl | rfl <;> simp [corners]

/-- Only faces whose corners have positions make deposits. -/
theorem Face.lt_size_of_mem_deposits {d : Nat × Vec3 α} (hd : d ∈ f.deposits positions) :
    d.1 < positions.size := by
  obtain ⟨i, hi, hd'⟩ := exists_corner_of_mem_deposits hd
  unfold deposits at hd
  split at hd
  · cases hd
  next hcorners =>
    obtain ⟨ha, hb, hc⟩ := toNat_lt_of_corners? hcorners
    simp only [corners, List.mem_cons, List.not_mem_nil, or_false] at hi
    rcases hi with rfl | rfl | rfl <;> omega

theorem lt_size_of_mem_depositsOf {faces : Array Face} {d : Nat × Vec3 α}
    (hd : d ∈ depositsOf positions faces) : d.1 < positions.size := by
  obtain ⟨f, -, hd⟩ := List.mem_flatMap.1 hd
  exact Face.lt_size_of_mem_deposits hd

/-- Checked deposits succeed as long as there are sums for them. -/
theorem foldlM_deposit? {ds : List (Nat × Vec3 α)} (h : ∀ d ∈ ds, d.1 < sums.size) :
    ds.foldlM deposit? sums = some (ds.foldl deposit sums) := by
  induction ds generalizing sums with
  | nil => rfl
  | cons d ds ih =>
    obtain ⟨hd, hds⟩ := List.forall_mem_cons.1 h
    rw [List.foldlM_cons, deposit?, if_pos hd, List.foldl_cons, Option.bind_eq_bind,
      Option.bind_some]
    exact ih fun e he => by simpa using hds e he

theorem vertexNormals?_eq (positions : Array (Vec3 α)) (faces : Array Face) :
    vertexNormals? positions faces = some (vertexNormals positions faces) := by
  rw [vertexNormals?, foldlM_deposit? fun d hd => ?_, vertexNormals_eq, Option.map_some]
  simpa using lt_size_of_mem_depositsOf hd

/-- A sum that nothing is deposited to stays as it is. -/
theorem getElem?_foldl_deposit {ds : List (Nat × Vec3 α)} {v : Nat} (h : ∀ d ∈ ds, d.1 ≠ v) :
    (ds.foldl deposit sums)[v]? = sums[v]? := by
  induction ds generalizing sums with
  | nil => rfl
  | cons d ds ih =>
    obtain ⟨hd, hds⟩ := List.forall_mem_cons.1 h
    rw [List.foldl_cons, ih hds, deposit, Array.getElem?_modify, if_neg hd]

end Deposits

/-! ## Deposits in exact arithmetic -/

section Exact

variable {positions sums : Array (Vec3 ℝ)} {f : Face}

theorem angle_comm (v w : Vec3 ℝ) : v.angle w = w.angle v := by
  rw [angle, angle, dot_comm, mul_comm v.norm]
  exact if_congr or_comm rfl rfl

/-- Whether a triangle has a normal does not depend on the corner it is taken at. -/
theorem unitNormal?_rotate (p q r : Vec3 ℝ) : unitNormal? q r p = unitNormal? p q r :=
  congrArg (normalize? Scalar.tolerance) (areaVector_rotate p q r)

theorem normalize?_neg (floor : ℝ) (v : Vec3 ℝ) :
    ((-1 : ℝ) • v).normalize? floor = (v.normalize? floor).map ((-1 : ℝ) • ·) := by
  have hnorm : ((-1 : ℝ) • v).norm = v.norm := by rw [norm_smul, abs_neg, abs_one, one_mul]
  have hdiv : (-1 : ℝ) • v / v.norm = (-1 : ℝ) • (v / v.norm) := by
    ext <;> exact mul_div_assoc _ _ _
  rw [normalize?, normalize?, hnorm]
  split_ifs
  · rfl
  · rw [hdiv, Option.map_some]

/-- The normal of a triangle is opposite if two corners are exchanged. -/
theorem unitNormal?_reverse (p q r : Vec3 ℝ) :
    unitNormal? p r q = (unitNormal? p q r).map ((-1 : ℝ) • ·) := by
  rw [unitNormal?, unitNormal?, cross_swap (q - p), normalize?_neg]

/-- The opposite deposit. -/
noncomputable def opposite (d : Nat × Vec3 ℝ) : Nat × Vec3 ℝ := (d.1, (-1 : ℝ) • d.2)

namespace Face

theorem corners?_rotate (positions : Array (Vec3 ℝ)) (f : Face) :
    f.rotate.corners? positions =
      (f.corners? positions).map fun (p, q, r) => (q, r, p) := by
  simp only [corners?, rotate]
  cases positions[f.a.toNat]? <;> cases positions[f.b.toNat]? <;>
    cases positions[f.c.toNat]? <;> rfl

theorem corners?_reverse (positions : Array (Vec3 ℝ)) (f : Face) :
    f.reverse.corners? positions =
      (f.corners? positions).map fun (p, q, r) => (p, r, q) := by
  simp only [corners?, reverse]
  cases positions[f.a.toNat]? <;> cases positions[f.b.toNat]? <;>
    cases positions[f.c.toNat]? <;> rfl

/-- A face that is turned round makes the same deposits. -/
theorem perm_deposits_rotate (positions : Array (Vec3 ℝ)) (f : Face) :
    (f.rotate.deposits positions).Perm (f.deposits positions) := by
  simp only [deposits, corners?_rotate]
  obtain hcorners | ⟨⟨p, q, r⟩, hcorners⟩ := Option.eq_none_or_eq_some (f.corners? positions)
  · simp [hcorners]
  · simp only [hcorners, Option.map_some, unitNormal?_rotate p q r]
    cases unitNormal? p q r with
    | none => exact .rfl
    | some n => exact List.perm_append_singleton _ [_, _]

/-- A face that is wound the other way round makes the opposite deposits. -/
theorem perm_deposits_reverse (positions : Array (Vec3 ℝ)) (f : Face) :
    (f.reverse.deposits positions).Perm ((f.deposits positions).map opposite) := by
  simp only [deposits, corners?_reverse]
  obtain hcorners | ⟨⟨p, q, r⟩, hcorners⟩ := Option.eq_none_or_eq_some (f.corners? positions)
  · simp [hcorners]
  · simp only [hcorners, Option.map_some, unitNormal?_reverse p q r]
    cases unitNormal? p q r with
    | none => exact .rfl
    | some n =>
      have hsmul (a : ℝ) : a • (-1 : ℝ) • n = (-1 : ℝ) • a • n := by
        ext <;> exact mul_left_comm _ _ _
      simp only [Option.map_some, List.map_cons, List.map_nil, opposite, reverse, hsmul,
        angle_comm (r - p), angle_comm (q - r), angle_comm (p - q)]
      exact (List.Perm.swap _ _ _).cons _

theorem deposits_eq_nil (h : f.IsNegligible positions) : f.deposits positions = [] := by
  unfold deposits
  split
  · rfl
  next p q r hcorners =>
    have harea : ((q - p).cross (r - p)).norm ≤ Scalar.tolerance := by
      rcases h with ⟨i, hi, hsize⟩ | ⟨p', q', r', hcorners', harea⟩
      · obtain ⟨ha, hb, hc⟩ := toNat_lt_of_corners? hcorners
        simp only [corners, List.mem_cons, List.not_mem_nil, or_false] at hi
        rcases hi with rfl | rfl | rfl <;> omega
      · cases hcorners.symm.trans hcorners'
        exact harea
    rw [unitNormal?, normalize?, if_pos harea]

end Face

theorem deposit_comm (sums : Array (Vec3 ℝ)) (d e : Nat × Vec3 ℝ) :
    deposit (deposit sums d) e = deposit (deposit sums e) d := by
  have hadd (v : Vec3 ℝ) : v + d.2 + e.2 = v + e.2 + d.2 := by
    ext <;> exact add_right_comm _ _ _
  apply Array.ext_getElem?
  intro v
  simp only [deposit, Array.getElem?_modify]
  split_ifs <;> simp [Function.comp_def, hadd]

/-- The order of the deposits does not matter. -/
theorem vertexNormals_of_perm {faces faces' : Array Face}
    (h : (depositsOf positions faces).Perm (depositsOf positions faces')) :
    vertexNormals positions faces = vertexNormals positions faces' := by
  rw [vertexNormals_eq, vertexNormals_eq,
    h.foldl_eq' fun d _ e _ sums => deposit_comm sums d e]

theorem foldl_deposit_map_opposite (ds : List (Nat × Vec3 ℝ)) (sums : Array (Vec3 ℝ)) :
    (ds.map opposite).foldl deposit (sums.map ((-1 : ℝ) • ·)) =
      (ds.foldl deposit sums).map ((-1 : ℝ) • ·) := by
  induction ds generalizing sums with
  | nil => rfl
  | cons d ds ih =>
    have hstep : deposit (sums.map ((-1 : ℝ) • ·)) (opposite d) =
        (deposit sums d).map ((-1 : ℝ) • ·) := by
      have hadd (v : Vec3 ℝ) : (-1 : ℝ) • v + (-1 : ℝ) • d.2 = (-1 : ℝ) • (v + d.2) := by
        ext <;> exact (mul_add _ _ _).symm
      apply Array.ext_getElem?
      intro v
      simp only [deposit, opposite, Array.getElem?_modify, Array.getElem?_map]
      split_ifs <;> simp [Function.comp_def, hadd]
    rw [List.map_cons, List.foldl_cons, hstep, ih, List.foldl_cons]

theorem directionOf_neg (v : Vec3 ℝ) :
    directionOf ((-1 : ℝ) • v) = (-1 : ℝ) • directionOf v := by
  rw [directionOf, directionOf, normalize?_neg]
  cases v.normalize? (Scalar.tolerance : ℝ) with
  | none => ext <;> simp
  | some n => rfl

theorem directionOf_zero : directionOf (0 : Vec3 ℝ) = 0 := by
  have hzero : (0 : Vec3 ℝ).norm ≤ Scalar.tolerance := by
    simpa [Vec3.norm, normSq, dot] using Scalar.tolerance_pos.le
  rw [directionOf, normalize?, if_pos hzero, Option.getD_none]

/-- A direction is a unit vector, unless there is none. -/
theorem directionOf_cases (v : Vec3 ℝ) : directionOf v = 0 ∨ (directionOf v).norm = 1 := by
  rw [directionOf, normalize?]
  split_ifs with hshort
  · exact .inl rfl
  · exact .inr (norm_normalize (Scalar.tolerance_pos.trans (not_le.1 hshort)))

/-- A vertex that no face deposits at has no normal. -/
theorem getElem?_vertexNormals_eq_zero {faces : Array Face} {v : Nat} (hv : v < positions.size)
    (h : ∀ f ∈ faces, ¬f.IsNegligible positions → ∀ i ∈ f.corners, i.toNat ≠ v) :
    (vertexNormals positions faces)[v]? = some 0 := by
  have hnone : ∀ d ∈ depositsOf positions faces, d.1 ≠ v := by
    intro d hd
    obtain ⟨f, hf, hd⟩ := List.mem_flatMap.1 hd
    obtain ⟨i, hi, hnumber⟩ := Face.exists_corner_of_mem_deposits hd
    have hdeposits : ¬f.IsNegligible positions := by
      intro hnegligible
      rw [Face.deposits_eq_nil hnegligible] at hd
      cases hd
    rw [hnumber]
    exact h f (Array.mem_toList_iff.1 hf) hdeposits i hi
  rw [vertexNormals_eq, Array.getElem?_map, getElem?_foldl_deposit hnone,
    Array.getElem?_replicate, if_pos hv, Option.map_some, directionOf_zero]

/-! ## Lists of faces -/

namespace Face

/-- Whether a face has the corners of another in the same order, turned round any number of
times. -/
def IsTurned (f f' : Face) : Prop := ∃ k : Nat, f' = rotate^[k] f

theorem IsTurned.perm_deposits {f' : Face} (h : f.IsTurned f') (positions : Array (Vec3 ℝ)) :
    (f'.deposits positions).Perm (f.deposits positions) := by
  obtain ⟨k, rfl⟩ := h
  induction k with
  | zero => exact .rfl
  | succ k ih =>
    rw [Function.iterate_succ_apply']
    exact (perm_deposits_rotate positions _).trans ih

end Face

variable {faces faces' extra : Array Face}

theorem perm_depositsOf_of_perm (h : faces.toList.Perm faces'.toList) :
    (depositsOf positions faces).Perm (depositsOf positions faces') :=
  h.flatMap_right _

theorem perm_flatMap_deposits_of_isTurned {faces faces' : List Face}
    (h : List.Forall₂ Face.IsTurned faces faces') :
    (faces'.flatMap (Face.deposits positions)).Perm (faces.flatMap (Face.deposits positions)) := by
  induction h with
  | nil => exact .rfl
  | cons hturned _ ih => exact (hturned.perm_deposits positions).append ih

theorem depositsOf_append (faces extra : Array Face) (positions : Array (Vec3 ℝ)) :
    depositsOf positions (faces ++ extra) =
      depositsOf positions faces ++ depositsOf positions extra := by
  rw [depositsOf, Array.toList_append, List.flatMap_append]
  rfl

theorem depositsOf_eq_nil (h : ∀ f ∈ extra, f.IsNegligible positions) :
    depositsOf positions extra = [] :=
  List.flatMap_eq_nil_iff.2 fun f hf =>
    Face.deposits_eq_nil (h f (Array.mem_toList_iff.1 hf))

theorem perm_depositsOf_map_reverse (positions : Array (Vec3 ℝ)) (faces : Array Face) :
    (depositsOf positions (faces.map Face.reverse)).Perm
      ((depositsOf positions faces).map opposite) := by
  rw [depositsOf, depositsOf, Array.toList_map, List.flatMap_map, List.map_flatMap]
  exact List.Perm.flatMap_left _ fun f _ => Face.perm_deposits_reverse positions f

theorem vertexNormals_map_reverse (positions : Array (Vec3 ℝ)) (faces : Array Face) :
    vertexNormals positions (faces.map Face.reverse) =
      (vertexNormals positions faces).map ((-1 : ℝ) • ·) := by
  have hzero : Array.replicate positions.size (0 : Vec3 ℝ) =
      (Array.replicate positions.size 0).map ((-1 : ℝ) • ·) := by
    have : (-1 : ℝ) • (0 : Vec3 ℝ) = 0 := by ext <;> simp
    rw [Array.map_replicate, this]
  rw [vertexNormals_eq, vertexNormals_eq, Array.map_map,
    (perm_depositsOf_map_reverse positions faces).foldl_eq'
      fun d _ e _ sums => deposit_comm sums d e,
    hzero, foldl_deposit_map_opposite, ← hzero, Array.map_map]
  congr 1
  funext sum
  exact directionOf_neg sum

/-- Every vertex has a normal, a unit vector or zero, and no sum is accessed that does not exist.
The normal is zero unless a face that is not negligible has the vertex for a corner. Normals depend
neither on the order of the faces, nor on which corner of a face is its first, nor on faces that are
negligible, and they are opposite if all faces are wound the other way round. -/
theorem vertexNormals_invariant (positions : Array (Vec3 ℝ)) (faces : Array Face) :
    ((vertexNormals positions faces).size = positions.size ∧
      (∀ n ∈ vertexNormals positions faces, n = 0 ∨ n.norm = 1) ∧
      vertexNormals? positions faces = some (vertexNormals positions faces)) ∧
    (∀ v < positions.size,
      (∀ f ∈ faces, ¬f.IsNegligible positions → ∀ i ∈ f.corners, i.toNat ≠ v) →
      (vertexNormals positions faces)[v]? = some 0) ∧
    (∀ faces' : Array Face, faces.toList.Perm faces'.toList →
      vertexNormals positions faces' = vertexNormals positions faces) ∧
    (∀ faces' : Array Face, List.Forall₂ Face.IsTurned faces.toList faces'.toList →
      vertexNormals positions faces' = vertexNormals positions faces) ∧
    (∀ extra faces' : Array Face, (∀ f ∈ extra, f.IsNegligible positions) →
      (faces ++ extra).toList.Perm faces'.toList →
      vertexNormals positions faces' = vertexNormals positions faces) ∧
    vertexNormals positions (faces.map Face.reverse) =
      (vertexNormals positions faces).map ((-1 : ℝ) • ·) := by
  refine ⟨⟨size_vertexNormals .., ?_, vertexNormals?_eq ..⟩,
    fun v hv => getElem?_vertexNormals_eq_zero hv, ?_, ?_, ?_, vertexNormals_map_reverse ..⟩
  · intro n hn
    rw [vertexNormals_eq] at hn
    obtain ⟨sum, -, rfl⟩ := Array.mem_map.1 hn
    exact directionOf_cases sum
  · intro faces' h
    exact vertexNormals_of_perm (perm_depositsOf_of_perm h.symm)
  · intro faces' h
    exact vertexNormals_of_perm (perm_flatMap_deposits_of_isTurned h)
  · intro extra faces' hextra h
    apply vertexNormals_of_perm
    have hdeposits : depositsOf positions (faces ++ extra) = depositsOf positions faces := by
      rw [depositsOf_append, depositsOf_eq_nil hextra, List.append_nil]
    rw [← hdeposits]
    exact perm_depositsOf_of_perm h.symm

end Exact

end ProceduralTree
