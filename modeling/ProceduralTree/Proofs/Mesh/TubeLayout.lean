import Mathlib.Tactic.Ring
import ProceduralTree.Mesh.Tube
import ProceduralTree.Proofs.Mesh.Runs
import ProceduralTree.Proofs.Success

/-!
# Layout of a tube

A vertex of a tube has a place: a number on a ring, or the center of a cap. Its index is computed in
words of 32 bits. A tube that passes the vertex check has few enough vertices for all of this
arithmetic to be exact, so different places have different indices, and none is the restart index.

## Main definitions

* `Site` — a place; `TubeGrid.number` and `TubeGrid.index` are its number and its index.
* `TubeGrid.Fits` — the vertex check.
* `TubeGrid.IsExact` — no computation of an index wraps around.

## Main statements

* `TubeGrid.index_inj` — places are told apart by their indices.
* `TubeGrid.strips_eq` — the strips by places.
* `Tube.mesh_layout` — the sizes of the buffers of a tube, and which indices they hold.
-/

namespace ProceduralTree

/-- A vertex of a tube by its place. -/
inductive Site where
  /-- Number `j` of ring `i`. -/
  | rim (i j : Nat)
  /-- The center of the cap over the first ring. -/
  | first
  /-- The center of the cap over the last ring. -/
  | last
deriving DecidableEq, Repr

namespace TubeGrid

variable (g : TubeGrid)

/-- The number of the vertex at a place: ring by ring, then the centers. -/
def number : Site → Nat
  | .rim i j => i * g.radial.toNat + j
  | .first => (g.segments.toNat + 1) * g.radial.toNat
  | .last => (g.segments.toNat + 1) * g.radial.toNat + 1

/-- The number of the vertex at a place, as a word. -/
def index (site : Site) : UInt32 := .ofNat (g.number site)

/-- Whether a tube has a vertex at a place. -/
def Has : Site → Prop
  | .rim i j => i ≤ g.segments.toNat ∧ j < g.radial.toNat
  | .first => g.caps = true
  | .last => g.caps = true

/-- The number of vertices of a tube. -/
def size : Nat := (g.segments.toNat + 1) * g.radial.toNat + if g.caps then 2 else 0

/-- The vertices are few enough to have an index each. -/
def Fits : Prop := g.vertexCount < restartIndex.toUInt64

instance : Decidable g.Fits := inferInstanceAs (Decidable (_ < _))

/-- The neighbour of vertex `j` on its ring; the last vertex is followed by the first. -/
def next (j : Nat) : Nat := if j + 1 = g.radial.toNat then 0 else j + 1

variable {g}

theorem segments_pos : 0 < g.segments.toNat := by
  have : g.segments.toNat ≠ 0 := fun h => g.segments_ne (UInt32.toNat_inj.1 h)
  omega

theorem radial_pos : 0 < g.radial.toNat := by
  have : g.radial.toNat ≠ 0 := fun h => g.radial_ne (UInt32.toNat_inj.1 h)
  omega

theorem next_lt {j : Nat} (hj : j < g.radial.toNat) : g.next j < g.radial.toNat := by
  grind [next]

theorem next_eq_mod {j : Nat} (hj : j < g.radial.toNat) : g.next j = (j + 1) % g.radial.toNat := by
  unfold next
  split
  · rename_i h
    rw [h, Nat.mod_self]
  · exact (Nat.mod_eq_of_lt (by omega)).symm

/-! ## The vertex check -/

/-- The vertex count is computed exactly, whatever the grid. -/
theorem toNat_vertexCount (g : TubeGrid) :
    g.vertexCount.toNat = (g.segments.toNat + 1) * g.radial.toNat + 2 := by
  have hs := g.segments.toNat_lt
  have hr := g.radial.toNat_lt
  have hprod : (g.segments.toNat + 1) * g.radial.toNat ≤ 4294967296 * 4294967295 :=
    Nat.mul_le_mul (by omega) (by omega)
  have hsum : (g.segments.toNat + 1) % 2 ^ 64 = g.segments.toNat + 1 := Nat.mod_eq_of_lt (by omega)
  simp only [vertexCount, UInt64.toNat_add, UInt64.toNat_mul, UInt32.toNat_toUInt64]
  rw [UInt64.toNat_one, hsum, Nat.mod_eq_of_lt (a := _ * _) (by omega)]
  exact Nat.mod_eq_of_lt (by simp; omega)

theorem fits_iff : g.Fits ↔ (g.segments.toNat + 1) * g.radial.toNat + 2 < 4294967295 := by
  rw [Fits, UInt64.lt_iff_toNat_lt, toNat_vertexCount]
  rfl

/-- The vertices of the rings come before the centers. -/
theorem number_rim_lt {i j : Nat} (h : g.Has (.rim i j)) :
    g.number (.rim i j) < (g.segments.toNat + 1) * g.radial.toNat := by
  obtain ⟨hi, hj⟩ := h
  have : (i + 1) * g.radial.toNat ≤ (g.segments.toNat + 1) * g.radial.toNat :=
    Nat.mul_le_mul_right _ (by omega)
  rw [Nat.add_mul, Nat.one_mul] at this
  simp only [number]
  omega

theorem number_lt_size {site : Site} (h : g.Has site) : g.number site < g.size := by
  cases site with
  | rim i j => exact (number_rim_lt h).trans_le (Nat.le_add_right _ _)
  | first | last =>
    have h : g.caps = true := h
    simp [number, size, h]

theorem size_le (g : TubeGrid) : g.size ≤ (g.segments.toNat + 1) * g.radial.toNat + 2 := by
  grind [size]

theorem toNat_index (hfits : g.Fits) {site : Site} (h : g.Has site) :
    (g.index site).toNat = g.number site := by
  have := number_lt_size h
  have := g.size_le
  have := fits_iff.1 hfits
  exact UInt32.toNat_ofNat_of_lt' (show g.number site < 4294967296 by omega)

theorem index_ne_restartIndex (hfits : g.Fits) {site : Site} (h : g.Has site) :
    g.index site ≠ restartIndex := by
  intro e
  have hlt := number_lt_size h
  have := g.size_le
  have := fits_iff.1 hfits
  rw [← toNat_index hfits h, e] at hlt
  have : restartIndex.toNat = 4294967295 := rfl
  omega

/-- Places are told apart by their numbers. -/
theorem number_inj {a b : Site} (ha : g.Has a) (hb : g.Has b) :
    g.number a = g.number b ↔ a = b := by
  refine ⟨?_, fun h => h ▸ rfl⟩
  intro h
  cases a with
  | rim i j =>
    have hlt := number_rim_lt ha
    cases b with
    | rim i' j' =>
      simp only [number] at h
      have hi : i = i' := by
        have := congrArg (· / g.radial.toNat) h
        simpa [Nat.add_comm, Nat.add_mul_div_right _ _ radial_pos, Nat.div_eq_of_lt ha.2,
          Nat.div_eq_of_lt hb.2] using this
      subst hi
      have : j = j' := by omega
      rw [this]
    | first | last => rw [h] at hlt; simp only [number] at hlt; omega
  | first =>
    cases b with
    | rim i' j' => have hlt := number_rim_lt hb; rw [← h] at hlt; simp only [number] at hlt; omega
    | first => rfl
    | last => simp [number] at h
  | last =>
    cases b with
    | rim i' j' => have hlt := number_rim_lt hb; rw [← h] at hlt; simp only [number] at hlt; omega
    | first => simp [number] at h
    | last => rfl

theorem index_inj (hfits : g.Fits) {a b : Site} (ha : g.Has a) (hb : g.Has b) :
    g.index a = g.index b ↔ a = b := by
  rw [← number_inj ha hb, ← toNat_index hfits ha, ← toNat_index hfits hb, UInt32.toNat_inj]

/-- Every number below the number of vertices is the number of a place. -/
theorem exists_number_eq {n : Nat} (h : n < g.size) : ∃ site, g.Has site ∧ g.number site = n := by
  by_cases hn : n < (g.segments.toNat + 1) * g.radial.toNat
  · refine ⟨.rim (n / g.radial.toNat) (n % g.radial.toNat), ⟨?_, Nat.mod_lt _ radial_pos⟩, ?_⟩
    · have := (Nat.div_lt_iff_lt_mul radial_pos).2 hn
      omega
    · exact Nat.div_add_mod' n g.radial.toNat
  · have hcaps : g.caps = true := by
      by_contra hcaps
      simp [size, hcaps] at h
      omega
    simp only [size, hcaps, if_true] at h
    by_cases hfirst : n = (g.segments.toNat + 1) * g.radial.toNat
    · exact ⟨.first, hcaps, hfirst.symm⟩
    · exact ⟨.last, hcaps, by simp only [number]; omega⟩

/-! ## Strips by places -/

section Strips

variable (g : TubeGrid)

/-- The strip between ring `i` and the next ring. -/
def sideSites (i : Nat) : List Site :=
  zigzag (.rim i) (.rim (i + 1)) g.radial.toNat ++ [.rim i 0, .rim (i + 1) 0]

/-- The disc over the first ring. -/
def startSites : List Site := zigzag (fun _ => .first) (.rim 0) g.radial.toNat ++ [.rim 0 0]

/-- The disc over the last ring. -/
def stopSites : List Site :=
  zigzag (.rim g.segments.toNat) (fun _ => .last) g.radial.toNat ++ [.rim g.segments.toNat 0]

def siteStrips : List (List Site) :=
  (List.range g.segments.toNat).map g.sideSites
    ++ if g.caps then [g.startSites, g.stopSites] else []

theorem sideStrip_ofNat (i : Nat) : g.sideStrip (.ofNat i) = (g.sideSites i).map g.index := by
  rw [sideSites, List.map_append, map_zigzag]
  simp [sideStrip, zigzag, words, index, number, List.flatMap_map]

theorem startCap_firstCenter : g.startCap g.firstCenter = g.startSites.map g.index := by
  rw [startSites, List.map_append, map_zigzag]
  simp [startCap, firstCenter, zigzag, words, index, number, List.flatMap_map]

theorem stopCap_firstCenter : g.stopCap (g.firstCenter + 1) = g.stopSites.map g.index := by
  rw [stopSites, List.map_append, map_zigzag]
  simp [stopCap, firstCenter, zigzag, words, index, number, List.flatMap_map]

/-- The strips are the indices of places. -/
theorem strips_eq : g.strips = g.siteStrips.map (List.map g.index) := by
  have hsides : g.sideStrips = (List.range g.segments.toNat).map fun i =>
      (g.sideSites i).map g.index := by
    simp [sideStrips, words, sideStrip_ofNat, Function.comp_def]
  rw [strips, siteStrips, List.map_append, List.map_map, hsides, capStrips, startCap_firstCenter,
    stopCap_firstCenter]
  congr 1
  split <;> rfl

theorem length_siteStrips :
    g.siteStrips.length = g.segments.toNat + if g.caps then 2 else 0 := by
  rw [siteStrips, List.length_append, List.length_map, List.length_range]
  split <;> rfl

theorem sum_length_siteStrips :
    (g.siteStrips.map List.length).sum = 2 * g.segments.toNat * (g.radial.toNat + 1)
      + if g.caps then 2 * (2 * g.radial.toNat + 1) else 0 := by
  have hside : (List.range g.segments.toNat).map (List.length ∘ g.sideSites) =
      List.replicate g.segments.toNat (2 * g.radial.toNat + 2) := by
    simp [Function.comp_def, sideSites, List.map_const']
  rw [siteStrips, List.map_append, List.sum_append, List.map_map, hside, List.sum_replicate_nat]
  congr 1
  · ring
  · split
    · simp only [List.map_cons, List.map_nil, List.sum_cons, List.sum_nil, startSites, stopSites,
        List.length_append, length_zigzag, List.length_singleton]
      ring
    · rfl

variable {g} {strip : List Site}

theorem ne_nil_of_mem_siteStrips (h : strip ∈ g.siteStrips) : strip ≠ [] := by
  rw [siteStrips, List.mem_append, List.mem_map] at h
  rcases h with ⟨i, -, rfl⟩ | h
  · simp [sideSites]
  · split at h
    · rcases List.mem_pair.1 h with rfl | rfl <;> simp [startSites, stopSites]
    · cases h

/-- A strip runs through vertices of the tube only. -/
theorem has_of_mem_siteStrips (h : strip ∈ g.siteStrips) {site : Site} (hsite : site ∈ strip) :
    g.Has site := by
  have hr := radial_pos (g := g)
  have hrim {i j : Nat} (hi : i ≤ g.segments.toNat) (hj : j < g.radial.toNat) :
      g.Has (.rim i j) := ⟨hi, hj⟩
  rw [siteStrips, List.mem_append, List.mem_map] at h
  rcases h with ⟨i, hi, rfl⟩ | h
  · have hi : i < g.segments.toNat := List.mem_range.1 hi
    rw [sideSites, List.mem_append, mem_zigzag, List.mem_pair] at hsite
    rcases hsite with ⟨j, hj, rfl | rfl⟩ | rfl | rfl
    · exact hrim (by omega) hj
    · exact hrim (by omega) hj
    · exact hrim (by omega) hr
    · exact hrim (by omega) hr
  · split at h
    · rename_i hcaps
      rcases List.mem_pair.1 h with rfl | rfl
      · rw [startSites, List.mem_append, mem_zigzag, List.mem_singleton] at hsite
        rcases hsite with ⟨j, hj, rfl | rfl⟩ | rfl
        · exact hcaps
        · exact hrim (Nat.zero_le _) hj
        · exact hrim (Nat.zero_le _) hr
      · rw [stopSites, List.mem_append, mem_zigzag, List.mem_singleton] at hsite
        rcases hsite with ⟨j, hj, rfl | rfl⟩ | rfl
        · exact hrim le_rfl hj
        · exact hcaps
        · exact hrim le_rfl hr
    · cases h

theorem siteStrips_ne_nil (g : TubeGrid) : g.siteStrips ≠ [] := by
  have := segments_pos (g := g)
  rw [← List.length_pos_iff, length_siteStrips]
  omega

/-- No strip holds the restart index, since no vertex has it. -/
theorem restartIndex_not_mem (hfits : g.Fits) {words : List UInt32} (h : words ∈ g.strips) :
    restartIndex ∉ words := by
  rw [strips_eq, List.mem_map] at h
  obtain ⟨strip, hstrip, rfl⟩ := h
  intro hmem
  obtain ⟨site, hsite, he⟩ := List.mem_map.1 hmem
  exact index_ne_restartIndex hfits (has_of_mem_siteStrips hstrip hsite) he

theorem exists_site_of_mem_indices {w : UInt32} (h : w ∈ g.indices) :
    w = restartIndex ∨ ∃ site, g.Has site ∧ w = g.index site := by
  rw [indices, List.mem_toArray] at h
  obtain h | ⟨words, hwords, hw⟩ := mem_intercalate_restart h
  · exact .inl h
  · rw [strips_eq, List.mem_map] at hwords
    obtain ⟨strip, hstrip, rfl⟩ := hwords
    obtain ⟨site, hsite, rfl⟩ := List.mem_map.1 hw
    exact .inr ⟨site, has_of_mem_siteStrips hstrip hsite, rfl⟩

theorem length_strips (g : TubeGrid) :
    g.strips.length = g.segments.toNat + if g.caps then 2 else 0 := by
  rw [strips_eq, List.length_map, length_siteStrips]

theorem count_restartIndex (hfits : g.Fits) :
    g.indices.count restartIndex = g.segments.toNat - 1 + if g.caps then 2 else 0 := by
  have := segments_pos (g := g)
  rw [indices, List.count_toArray,
    count_intercalate_restart fun _ => restartIndex_not_mem hfits, length_strips]
  omega

theorem countP_ne_restartIndex (hfits : g.Fits) :
    g.indices.countP (· ≠ restartIndex) = 2 * g.segments.toNat * (g.radial.toNat + 1)
      + if g.caps then 2 * (2 * g.radial.toNat + 1) else 0 := by
  have hsum : (g.strips.map List.length).sum = (g.siteStrips.map List.length).sum := by
    simp [strips_eq, Function.comp_def]
  rw [indices, List.countP_toArray,
    countP_ne_intercalate_restart fun _ => restartIndex_not_mem hfits, hsum, sum_length_siteStrips]

theorem restartsSeparate_indices (hfits : g.Fits) : RestartsSeparate g.indices.toList := by
  refine restartsSeparate_intercalate ?_ fun words h => ⟨?_, restartIndex_not_mem hfits h⟩
  · simpa [strips_eq] using siteStrips_ne_nil g
  · rw [strips_eq, List.mem_map] at h
    obtain ⟨strip, hstrip, rfl⟩ := h
    simpa using ne_nil_of_mem_siteStrips hstrip

end Strips

/-! ## Exact arithmetic -/

/-- No computation of an index wraps around: the words are the natural numbers that they stand
for. -/
structure IsExact (g : TubeGrid) : Prop where
  /-- The numbers that a loop runs through. -/
  counter : ∀ n, (words n).map UInt32.toNat = List.range n.toNat
  /-- The number of the ring behind a segment. -/
  ringAfter : ∀ i < g.segments, (i + 1).toNat = i.toNat + 1
  /-- The first vertex of a ring. -/
  ring : ∀ i ≤ g.segments, (i * g.radial).toNat = i.toNat * g.radial.toNat
  /-- Any vertex of a ring. -/
  vertex : ∀ i ≤ g.segments, ∀ j < g.radial,
    (i * g.radial + j).toNat = i.toNat * g.radial.toNat + j.toNat
  ringCount : (g.segments + 1).toNat = g.segments.toNat + 1
  firstCenter : g.firstCenter.toNat = (g.segments.toNat + 1) * g.radial.toNat
  lastCenter : (g.firstCenter + 1).toNat = (g.segments.toNat + 1) * g.radial.toNat + 1

theorem isExact_of_fits {g : TubeGrid} (hfits : g.Fits) : g.IsExact := by
  have hcount := fits_iff.1 hfits
  have hr := radial_pos (g := g)
  have hrings : g.segments.toNat + 1 ≤ (g.segments.toNat + 1) * g.radial.toNat :=
    Nat.le_mul_of_pos_right _ hr
  have hring {i : UInt32} (hi : i ≤ g.segments) :
      (i.toNat + 1) * g.radial.toNat ≤ (g.segments.toNat + 1) * g.radial.toNat :=
    Nat.mul_le_mul_right _ (by have := UInt32.le_iff_toNat_le.1 hi; omega)
  have hmul {i : UInt32} (hi : i ≤ g.segments) :
      (i * g.radial).toNat = i.toNat * g.radial.toNat := by
    have := hring hi
    rw [Nat.add_mul] at this
    rw [UInt32.toNat_mul]
    exact Nat.mod_eq_of_lt (by omega)
  have hadd {a b : UInt32} (h : a.toNat + b.toNat < 4294967296) :
      (a + b).toNat = a.toNat + b.toNat := by
    rw [UInt32.toNat_add]
    exact Nat.mod_eq_of_lt h
  have hone : (1 : UInt32).toNat = 1 := rfl
  have hcenter : g.firstCenter.toNat = (g.segments.toNat + 1) * g.radial.toNat := by
    rw [TubeGrid.firstCenter, UInt32.toNat_mul, hadd (by omega), hone]
    exact Nat.mod_eq_of_lt (by omega)
  refine ⟨?_, ?_, fun i hi => hmul hi, ?_, ?_, hcenter, ?_⟩
  · intro n
    rw [words, List.map_map]
    refine (List.map_congr_left fun k hk => ?_).trans (List.map_id _)
    exact UInt32.toNat_ofNat_of_lt' ((List.mem_range.1 hk).trans n.toNat_lt)
  · intro i hi
    have := UInt32.lt_iff_toNat_lt.1 hi
    exact hadd (by omega)
  · intro i hi j hj
    have hsum := hring hi
    have := UInt32.lt_iff_toNat_lt.1 hj
    rw [Nat.add_mul] at hsum
    rw [hadd (by rw [hmul hi]; omega), hmul hi]
  · exact hadd (by omega)
  · rw [hadd (by omega), hcenter, hone]

/-- The words for the centers are those of no other vertices. -/
theorem index_eq_center_iff {g : TubeGrid} (hfits : g.Fits) {site : Site} (h : g.Has site) :
    (g.index site = g.firstCenter ↔ site = .first) ∧
      (g.index site = g.firstCenter + 1 ↔ site = .last) := by
  have hexact := isExact_of_fits hfits
  simp only [← UInt32.toNat_inj, toNat_index hfits h, hexact.firstCenter, hexact.lastCenter]
  cases site with
  | rim i j =>
    have hlt := number_rim_lt h
    simp only [reduceCtorEq, iff_false]
    omega
  | first => simp [number]
  | last => simp [number]

end TubeGrid

namespace Tube

variable {α : Type} [Scalar α] {t : Tube α}

theorem size_ring {i : Nat} {ring : Array (Vec3 α)} (h : t.ring i = .ok ring) :
    ring.size = t.grid.radial.toNat := by
  obtain ⟨center, -, h⟩ := bind_eq_ok.1 h
  obtain ⟨frame, -, h⟩ := bind_eq_ok.1 h
  cases h
  exact Array.size_ofFn

theorem size_ringsOnto {vertices rings : Array (Vec3 α)} {i count : Nat}
    (h : t.ringsOnto vertices i count = .ok rings) :
    rings.size = vertices.size + count * t.grid.radial.toNat := by
  induction count generalizing vertices i with
  | zero =>
    cases h
    simp
  | succ count ih =>
    obtain ⟨ring, hring, h⟩ := bind_eq_ok.1 h
    rw [ih h, Array.size_append, size_ring hring]
    ring

theorem size_rings {rings : Array (Vec3 α)} (h : t.rings = .ok rings) :
    rings.size = (t.grid.segments.toNat + 1) * t.grid.radial.toNat := by
  simpa using size_ringsOnto h

theorem exists_rings_of_positions {positions : Array (Vec3 α)} (h : t.positions = .ok positions) :
    ∃ rings centers, t.rings = .ok rings ∧ t.centers = .ok centers ∧
      rings ++ centers = positions := by
  obtain ⟨rings, hrings, h⟩ := bind_eq_ok.1 h
  obtain ⟨centers, hcenters, h⟩ := bind_eq_ok.1 h
  exact ⟨rings, centers, hrings, hcenters, Except.ok.inj h⟩

theorem size_positions {positions : Array (Vec3 α)} (h : t.positions = .ok positions) :
    positions.size = t.grid.size := by
  obtain ⟨rings, centers, hrings, hcenters, rfl⟩ := exists_rings_of_positions h
  rw [Array.size_append, size_rings hrings, TubeGrid.size]
  congr 1
  rw [Tube.centers] at hcenters
  split at hcenters
  · obtain ⟨first, -, hcenters⟩ := bind_eq_ok.1 hcenters
    obtain ⟨last, -, hcenters⟩ := bind_eq_ok.1 hcenters
    cases hcenters
    simp [*]
  · cases hcenters
    simp [*]

/-- When there is a mesh of a tube, and what it is made of. -/
theorem mesh_eq_ok {m : Mesh α} :
    t.mesh = .ok m ↔ IsRadius t.radiusBegin ∧ IsRadius t.radiusEnd ∧ t.grid.Fits ∧
      ∃ positions, t.positions = .ok positions ∧
        .ofShape .triangleStrip positions t.grid.indices t.color = m := by
  rw [mesh]
  split
  · simp_all
  split
  · simp_all
  split
  · simp_all [TubeGrid.Fits]
  · split <;> simp_all [TubeGrid.Fits]

theorem mesh_eq_error {e : TubeError α} (h : t.mesh = .error e) :
    (∃ r, (r = t.radiusBegin ∨ r = t.radiusEnd) ∧ ¬IsRadius r ∧ e = .radius r) ∨
    ¬t.grid.Fits ∧ e = .vertexCount t.grid.vertexCount.toNat ∨
    ∃ cause, t.positions = .error cause ∧ e = .curve cause := by
  rw [mesh] at h
  split at h
  next hradius =>
    cases h
    exact .inl ⟨_, .inl rfl, hradius, rfl⟩
  split at h
  next hradius =>
    cases h
    exact .inl ⟨_, .inr rfl, hradius, rfl⟩
  split at h
  next hlarge =>
    cases h
    exact .inr (.inl ⟨UInt64.not_lt.2 hlarge, rfl⟩)
  split at h
  next cause hpositions =>
    cases h
    exact .inr (.inr ⟨cause, hpositions, rfl⟩)
  · cases h

/-- The buffers of a tube: their lengths, and which indices they hold. -/
structure IsLaidOut (g : TubeGrid) (m : Mesh α) : Prop where
  vertexCount : m.vertexCount =
    (g.segments.toNat + 1) * g.radial.toNat + if g.caps then 2 else 0
  normals : m.normals.size = m.vertexCount
  colors : m.colors.size = m.vertexCount
  /-- No vertex has the restart index for its number. -/
  vertexCount_le : m.vertexCount ≤ restartIndex.toNat
  strip : ∀ strip ∈ g.strips, ∀ i ∈ strip, i ≠ restartIndex ∧ i.toNat < m.vertexCount
  index : ∀ i ∈ m.indices, i = restartIndex ∨ i.toNat < m.vertexCount
  indexCount : m.indices.countP (· ≠ restartIndex) =
    2 * g.segments.toNat * (g.radial.toNat + 1)
      + if g.caps then 2 * (2 * g.radial.toNat + 1) else 0
  restartCount : m.indices.count restartIndex =
    g.segments.toNat - 1 + if g.caps then 2 else 0
  separate : RestartsSeparate m.indices.toList

/-- The arithmetic of a tube is exact. The vertex count of any grid is computed without overflow;
if it passes the check, so are all indices, and the number of vertices of the rings is a word. The
mesh of a tube has the vertices and the indices that its grid calls for. -/
theorem mesh_layout (t : Tube α) :
    t.grid.vertexCount.toNat = (t.grid.segments.toNat + 1) * t.grid.radial.toNat + 2 ∧
    (t.grid.vertexCount < restartIndex.toUInt64 → t.grid.IsExact ∧
      ∀ rings, t.rings = .ok rings → rings.size = t.grid.firstCenter.toNat) ∧
    ∀ m, t.mesh = .ok m → IsLaidOut t.grid m := by
  refine ⟨t.grid.toNat_vertexCount, ?_, ?_⟩
  · intro hfits
    have hexact := TubeGrid.isExact_of_fits hfits
    exact ⟨hexact, fun rings hrings => (size_rings hrings).trans hexact.firstCenter.symm⟩
  · intro m hm
    obtain ⟨-, -, hfits, positions, hpositions, rfl⟩ := mesh_eq_ok.1 hm
    have hsize := size_positions hpositions
    have hindex {site : Site} (h : t.grid.Has site) :
        (t.grid.index site).toNat < positions.size := by
      rw [TubeGrid.toNat_index hfits h, hsize]
      exact TubeGrid.number_lt_size h
    refine ⟨hsize, Mesh.size_normals_ofShape .., Mesh.size_colors_ofShape .., ?_, ?_, ?_,
      TubeGrid.countP_ne_restartIndex hfits, TubeGrid.count_restartIndex hfits,
      TubeGrid.restartsSeparate_indices hfits⟩
    · have := TubeGrid.fits_iff.1 hfits
      have := t.grid.size_le
      change positions.size ≤ 4294967295
      omega
    · intro strip hstrip i hi
      refine ⟨fun e => TubeGrid.restartIndex_not_mem hfits hstrip (e ▸ hi), ?_⟩
      rw [TubeGrid.strips_eq, List.mem_map] at hstrip
      obtain ⟨sites, hsites, rfl⟩ := hstrip
      obtain ⟨site, hsite, rfl⟩ := List.mem_map.1 hi
      exact hindex (TubeGrid.has_of_mem_siteStrips hsites hsite)
    · intro i hi
      obtain h | ⟨site, hsite, rfl⟩ := TubeGrid.exists_site_of_mem_indices hi
      · exact .inl h
      · exact .inr (hindex hsite)

end Tube

end ProceduralTree
