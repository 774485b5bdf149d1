import ProceduralTree.Proofs.Mesh.Merging

/-!
# Merging in pieces

Meshes of one topology form a monoid. Of three meshes in a row it does not matter which two are
merged first: vertices and indices come out the same, restarts included, and too many vertices are
too many either way. A mesh without vertices changes nothing. A row of meshes may therefore be cut
anywhere and its parts be merged on their own.

## Main statements

* `Mesh.append_assoc` — the two ways to append three meshes.
* `Mesh.merge_monoid` — the two ways to merge them, failures included, and the empty mesh.
* `Mesh.foldlM_merge_append` — a row of meshes in two parts.
-/

namespace ProceduralTree.Mesh

variable {α : Type} {a b c : Mesh α}

/-! ## Indices of three meshes -/

/-- Two shifts in a row make one, unless the first of them carries an index onto the restart. -/
theorem shift_shift (n : Nat) {k : Nat} {i : UInt32}
    (h : shift (.ofNat k) i = restartIndex ↔ i = restartIndex) :
    shift (.ofNat n) (shift (.ofNat k) i) = shift (.ofNat (n + k)) i := by
  by_cases hi : i = restartIndex
  · rw [h.2 hi, hi, shift_restartIndex, shift_restartIndex]
  · have hk : shift (.ofNat k) i = i + .ofNat k := if_neg hi
    have hne := mt h.1 hi
    rw [hk] at hne ⊢
    rw [shift, if_neg hne, shift, if_neg hi, UInt32.ofNat_add]
    ac_rfl

theorem map_shift_separator (offset : UInt32) (topology : Topology) (first second : Array UInt32) :
    (separator topology first second).map (shift offset) = separator topology first second := by
  unfold separator
  split <;> simp [shift_restartIndex]

/-- Three buffers, the second and the third of them renamed, have the same separators whichever two
come together first. If the second is empty, at most one separator is left, in either of two
places. -/
theorem separator_assoc (f g : UInt32 → UInt32) (topology : Topology) (x y z : Array UInt32) :
    x ++ separator topology x y ++ y.map f
        ++ separator topology (x ++ separator topology x y ++ y.map f) z =
      x ++ separator topology x (y ++ separator topology y z ++ z.map g) ++ y.map f
        ++ separator topology y z := by
  by_cases hy : y = #[]
  · by_cases hz : z = #[] <;> simp [separator, hy, hz]
  · simp [separator, hy]

/-! ## Three meshes -/

theorem append_assoc (hsame : a.topology = b.topology) (hc : c.IsIndexed)
    (hfits : b.FitsBefore c) : (a.append b).append c = a.append (b.append c) := by
  have hshift : (c.indices.map (shift (.ofNat b.vertexCount))).map (shift (.ofNat a.vertexCount)) =
      c.indices.map (shift (.ofNat (a.append b).vertexCount)) := by
    rw [Array.map_map]
    refine Array.map_congr_left fun i hi => ?_
    rw [vertexCount_append]
    exact shift_shift _ (shift_eq_restartIndex_iff (lt_of_mem_indices hc hfits hi))
  have hindices : ((a.append b).append c).indices = (a.append (b.append c)).indices := by
    simp only [indices_append, topology_append]
    rw [← hsame, separator_assoc _ (shift (.ofNat b.vertexCount)), Array.map_append,
      Array.map_append, hshift, map_shift_separator]
    simp only [Array.append_assoc]
  exact (Mesh.mk.injEq ..).mpr
    ⟨rfl, Array.append_assoc .., Array.append_assoc .., Array.append_assoc .., hindices⟩

/-! ## Merging -/

theorem merge_of_topology_eq (h : a.topology = b.topology) :
    a.merge b = if a.vertexCount + b.vertexCount ≤ restartIndex.toNat then .ok (a.append b)
      else .error .tooManyVertices := by
  rw [merge, if_neg (not_not.2 h)]
  grind

theorem merge_bind_merge (hab : a.topology = b.topology) (hbc : b.topology = c.topology) :
    (a.merge b >>= fun ab => ab.merge c) =
      if a.vertexCount + b.vertexCount + c.vertexCount ≤ restartIndex.toNat then
        .ok ((a.append b).append c)
      else .error .tooManyVertices := by
  rw [merge_of_topology_eq hab]
  by_cases h : a.vertexCount + b.vertexCount ≤ restartIndex.toNat
  · rw [if_pos h]
    change (a.append b).merge c = _
    rw [merge_of_topology_eq ((topology_append a b).trans (hab.trans hbc)), vertexCount_append]
  · rw [if_neg h, if_neg (by omega)]
    rfl

theorem merge_bind_merge_right (hab : a.topology = b.topology) (hbc : b.topology = c.topology) :
    (b.merge c >>= fun bc => a.merge bc) =
      if a.vertexCount + b.vertexCount + c.vertexCount ≤ restartIndex.toNat then
        .ok (a.append (b.append c))
      else .error .tooManyVertices := by
  rw [merge_of_topology_eq hbc]
  by_cases h : b.vertexCount + c.vertexCount ≤ restartIndex.toNat
  · rw [if_pos h]
    change a.merge (b.append c) = _
    rw [merge_of_topology_eq (hab.trans (topology_append b c).symm), vertexCount_append,
      Nat.add_assoc]
  · rw [if_neg h, if_neg (by omega)]
    rfl

theorem merge_assoc (hab : a.topology = b.topology) (hbc : b.topology = c.topology)
    (hc : c.IsIndexed) :
    (a.merge b >>= fun ab => ab.merge c) = b.merge c >>= fun bc => a.merge bc := by
  rw [merge_bind_merge hab hbc, merge_bind_merge_right hab hbc]
  by_cases h : a.vertexCount + b.vertexCount + c.vertexCount ≤ restartIndex.toNat
  · have hfits : b.FitsBefore c := by
      unfold FitsBefore
      omega
    rw [if_pos h, if_pos h, append_assoc hab hc hfits]
  · rw [if_neg h, if_neg h]

theorem empty_append (m : Mesh α) : (empty m.topology).append m = m := by
  have hshift : shift 0 = id := by
    funext i
    simp [shift]
  cases m
  simp [append, empty, separator, hshift]

theorem append_empty (m : Mesh α) : m.append (empty m.topology) = m := by
  cases m
  simp [append, empty, separator]

/-- Meshes of one topology whose indices are restarts or those of vertices form a monoid as far as
their vertices have indices: the order of two mergers does not matter, whether they succeed or not,
and the empty mesh is the unit from both sides. -/
theorem merge_monoid (hab : a.topology = b.topology) (hbc : b.topology = c.topology)
    (hc : c.IsIndexed) :
    ((a.merge b >>= fun ab => ab.merge c) = b.merge c >>= fun bc => a.merge bc) ∧
    ((∃ m, (a.merge b >>= fun ab => ab.merge c) = .ok m) ↔
      a.vertexCount + b.vertexCount + c.vertexCount ≤ restartIndex.toNat) ∧
    (a.vertexCount ≤ restartIndex.toNat →
      (empty a.topology).merge a = .ok a ∧ a.merge (empty a.topology) = .ok a) := by
  refine ⟨merge_assoc hab hbc hc, ?_, ?_⟩
  · rw [merge_bind_merge hab hbc]
    split <;> simp_all
  · intro h
    have hleft : (empty a.topology).FitsBefore a := by simpa [FitsBefore] using h
    have hright : a.FitsBefore (empty a.topology) := by simpa [FitsBefore] using h
    exact ⟨merge_eq_ok_iff.2 ⟨rfl, hleft, empty_append a⟩,
      merge_eq_ok_iff.2 ⟨rfl, hright, append_empty a⟩⟩

/-- A strip with a restart behind it, a mesh with vertices but no indices, and a strip with a
restart before it. -/
theorem merge_monoid_strips :
    let a : Mesh Float := ⟨.triangleStrip, .replicate 3 0, #[], #[], #[0, 1, 2, restartIndex]⟩
    let b : Mesh Float := ⟨.triangleStrip, .replicate 2 0, #[], #[], #[]⟩
    let c : Mesh Float := ⟨.triangleStrip, .replicate 3 0, #[], #[], #[restartIndex, 2, 1, 0]⟩
    c.IsIndexed ∧ ((a.merge b >>= fun ab => ab.merge c) = b.merge c >>= fun bc => a.merge bc) ∧
      (∃ m, (a.merge b >>= fun ab => ab.merge c) = .ok m) ∧
      (empty a.topology).merge a = .ok a ∧ a.merge (empty a.topology) = .ok a := by
  intro a b c
  have hc : c.IsIndexed := by decide
  obtain ⟨hassoc, hfits, hunit⟩ := merge_monoid (a := a) (b := b) (c := c) rfl rfl hc
  exact ⟨hc, hassoc, hfits.2 (by decide), hunit (by decide)⟩

/-! ## A row of meshes -/

theorem foldlM_merge_bind (ha : a.topology = b.topology) {ms : List (Mesh α)}
    (hms : ∀ m ∈ ms, m.topology = b.topology ∧ m.IsIndexed) :
    (a.merge b >>= fun ab => ms.foldlM merge ab) =
      ms.foldlM merge b >>= fun m => a.merge m := by
  induction ms generalizing b with
  | nil => simp
  | cons c ms ih =>
    obtain ⟨⟨hc, hindexed⟩, hms⟩ := List.forall_mem_cons.1 hms
    have hassoc := merge_assoc ha hc.symm hindexed
    simp only [List.foldlM_cons]
    rw [← bind_assoc, hassoc]
    cases hbc : b.merge c with
    | error e => rfl
    | ok bc =>
      obtain ⟨-, -, rfl⟩ := merge_eq_ok_iff.1 hbc
      exact ih ha hms

/-- The mesh that a row is merged into keeps its topology, and its vertices have indices. -/
theorem fits_of_foldlM_merge {topology : Topology} {m : Mesh α} {ms : List (Mesh α)}
    (ha : a.topology = topology ∧ a.vertexCount ≤ restartIndex.toNat)
    (h : ms.foldlM merge a = .ok m) :
    m.topology = topology ∧ m.vertexCount ≤ restartIndex.toNat := by
  induction ms generalizing a with
  | nil =>
    cases h
    exact ha
  | cons b ms ih =>
    rw [List.foldlM_cons] at h
    cases hab : a.merge b with
    | error e =>
      rw [hab] at h
      cases h
    | ok ab =>
      obtain ⟨-, hfits, rfl⟩ := merge_eq_ok_iff.1 hab
      rw [hab] at h
      have hjoined : (a.append b).vertexCount ≤ restartIndex.toNat := by rwa [vertexCount_append]
      exact ih (a := a.append b) ⟨ha.1, hjoined⟩ h

/-- A row of meshes may be cut anywhere and be merged in two parts. -/
theorem foldlM_merge_append {topology : Topology} (first : List (Mesh α)) {second : List (Mesh α)}
    (hsecond : ∀ m ∈ second, m.topology = topology ∧ m.IsIndexed) :
    (first ++ second).foldlM merge (empty topology) =
      (first.foldlM merge (empty topology) >>= fun a =>
        second.foldlM merge (empty topology) >>= fun b => a.merge b) := by
  rw [List.foldlM_append]
  cases hfirst : first.foldlM merge (empty topology) with
  | error e => rfl
  | ok a =>
    obtain ⟨htopology, hfits⟩ := fits_of_foldlM_merge ⟨rfl, Nat.zero_le _⟩ hfirst
    subst htopology
    have hunit : a.merge (empty a.topology) = .ok a :=
      merge_eq_ok_iff.2 ⟨rfl, by simpa [FitsBefore] using hfits, append_empty a⟩
    have hbind := foldlM_merge_bind (a := a) (b := empty a.topology) rfl hsecond
    rw [hunit] at hbind
    exact hbind

end ProceduralTree.Mesh
