import ProceduralTree.Proofs.Mesh.TubeLayout

/-!
# Vertices of a tube

The rings of a tube are laid out one behind the other, so a vertex is found by the number of its
ring and its number on the ring, and the centers of the caps are found behind them all.

## Main statements

* `Tube.exists_ring_of_positions` — the vertices of a ring.
* `Tube.exists_centers_of_positions` — the centers of the caps.
-/

namespace ProceduralTree.Tube

variable {α : Type} [Scalar α] {t : Tube α} {vertices rings positions : Array (Vec3 α)}

theorem exists_frame_of_ring {i : Nat} {ring : Array (Vec3 α)} (h : t.ring i = .ok ring) :
    ∃ center frame, t.curve (t.parameter i) = .ok center ∧
      Frame.ofCurve t.curve (t.parameter i) = .ok frame ∧
      ∀ j < t.grid.radial.toNat, ring[j]? = some
        (circlePoint center frame (t.radiusAt (t.parameter i)) (angleStep t.grid * j)) := by
  obtain ⟨center, hcenter, h⟩ := bind_eq_ok.1 h
  obtain ⟨frame, hframe, h⟩ := bind_eq_ok.1 h
  cases h
  refine ⟨center, frame, hcenter, hframe, fun j hj => ?_⟩
  rw [Array.getElem?_ofFn, dif_pos hj]

/-- Adding rings changes none of the vertices before them and lays the rings out in order. -/
theorem getElem?_ringsOnto {i count : Nat} (h : t.ringsOnto vertices i count = .ok rings) :
    (∀ v < vertices.size, rings[v]? = vertices[v]?) ∧
      ∀ k < count, ∃ ring, t.ring (i + k) = .ok ring ∧ ∀ j < t.grid.radial.toNat,
        rings[vertices.size + k * t.grid.radial.toNat + j]? = ring[j]? := by
  induction count generalizing vertices i with
  | zero =>
    cases h
    exact ⟨fun _ _ => rfl, fun k hk => absurd hk k.not_lt_zero⟩
  | succ count ih =>
    obtain ⟨ring, hring, h⟩ := bind_eq_ok.1 h
    have hsize := size_ring hring
    obtain ⟨hbefore, hrings⟩ := ih h
    rw [Array.size_append, hsize] at hbefore hrings
    refine ⟨fun v hv => ?_, fun k hk => ?_⟩
    · rw [hbefore v (by omega), Array.getElem?_append_left hv]
    · cases k with
      | zero =>
        refine ⟨ring, hring, fun j hj => ?_⟩
        rw [Nat.zero_mul, Nat.add_zero, hbefore _ (by omega),
          Array.getElem?_append_right (Nat.le_add_right _ _), Nat.add_sub_cancel_left]
      | succ k =>
        obtain ⟨next, hnext, hvertex⟩ := hrings k (by omega)
        refine ⟨next, by rwa [Nat.add_right_comm] at hnext, fun j hj => ?_⟩
        rw [← hvertex j hj, Nat.succ_mul]
        congr 1
        omega

/-- The vertices of ring `i` lie on a circle in the plane of the curve's frame. -/
theorem exists_ring_of_positions (h : t.positions = .ok positions) {i : Nat}
    (hi : i ≤ t.grid.segments.toNat) :
    ∃ center frame, t.curve (t.parameter i) = .ok center ∧
      Frame.ofCurve t.curve (t.parameter i) = .ok frame ∧
      ∀ j < t.grid.radial.toNat, positions[t.grid.number (.rim i j)]? = some
        (circlePoint center frame (t.radiusAt (t.parameter i)) (angleStep t.grid * j)) := by
  obtain ⟨rings, centers, hrings, -, rfl⟩ := exists_rings_of_positions h
  obtain ⟨ring, hring, hvertex⟩ := (getElem?_ringsOnto hrings).2 i (by omega)
  rw [Nat.zero_add] at hring
  obtain ⟨center, frame, hcenter, hframe, hcircle⟩ := exists_frame_of_ring hring
  refine ⟨center, frame, hcenter, hframe, fun j hj => ?_⟩
  have hlt : t.grid.number (.rim i j) < rings.size := by
    rw [size_rings hrings]
    exact TubeGrid.number_rim_lt ⟨hi, hj⟩
  rw [← hcircle j hj, ← hvertex j hj, Array.getElem?_append_left hlt, Array.size_empty,
    Nat.zero_add]
  rfl

/-- The centers of the caps are the ends of the curve. -/
theorem exists_centers_of_positions (h : t.positions = .ok positions)
    (hcaps : t.grid.caps = true) :
    ∃ first last, t.curve 0 = .ok first ∧ t.curve 1 = .ok last ∧
      positions[t.grid.number .first]? = some first ∧
      positions[t.grid.number .last]? = some last := by
  obtain ⟨rings, centers, hrings, hcenters, rfl⟩ := exists_rings_of_positions h
  rw [Tube.centers, if_pos hcaps] at hcenters
  obtain ⟨first, hfirst, hcenters⟩ := bind_eq_ok.1 hcenters
  obtain ⟨last, hlast, hcenters⟩ := bind_eq_ok.1 hcenters
  cases hcenters
  refine ⟨first, last, hfirst, hlast, ?_, ?_⟩
  · rw [TubeGrid.number, ← size_rings hrings, Array.getElem?_append_right le_rfl, Nat.sub_self]
    rfl
  · rw [TubeGrid.number, ← size_rings hrings, Array.getElem?_append_right
      (Nat.le_add_right _ 1), Nat.add_sub_cancel_left]
    rfl

end ProceduralTree.Tube
