import ProceduralTree.Mesh.Basic
import ProceduralTree.Proofs.Mesh.Runs
import ProceduralTree.Scalar.Binary64

/-!
# Merged meshes

A merged mesh has the vertices and the faces of the first mesh and then those of the second, with
the indices of the second shifted. The restart between two strips makes their decoding independent
of each other, and as long as all vertices have an index, no index is shifted onto the restart.

## Main definitions

* `Mesh.IsIndexed` — every index is a restart or that of a vertex.
* `Mesh.IsWhole` — a triangle list without a rest of one or two indices.
* `Mesh.Joins` — a mesh that consists of two others.
* `Mesh.facesFrom` — the faces of several meshes, one behind the other.

## Main statements

* `stripFaces_append_restart`, `listFaces_append` — the faces of two index buffers in one.
* `Mesh.joins_append` — what appending makes of two meshes.
* `Mesh.absorb_joins` — when meshes can be merged in place, and what merging makes of them.
* `Mesh.foldlM_merge_eq_error_iff`, `Mesh.exists_foldlM_merge` — the same for several strips.
-/

namespace ProceduralTree

/-- The face with other names for its corners. -/
def Face.map (f : UInt32 → UInt32) (face : Face) : Face := ⟨f face.a, f face.b, f face.c⟩

/-! ## Faces of renamed buffers -/

theorem runFaces_map (f : UInt32 → UInt32) (exchange : Bool) (run : List UInt32) :
    runFaces exchange (run.map f) = (runFaces exchange run).map (Face.map f) := by
  induction run generalizing exchange with
  | nil => rfl
  | cons a run ih =>
    match run with
    | [] | [_] => rfl
    | b :: c :: rest =>
      have := ih (!exchange)
      cases exchange <;> simpa [runFaces, Face.map] using this

/-- Renaming moves no cut as long as it neither makes nor unmakes the separator. -/
theorem splitOn_map {f : UInt32 → UInt32} {sep : UInt32} {xs : List UInt32}
    (h : ∀ i ∈ xs, f i = sep ↔ i = sep) :
    (xs.map f).splitOn sep = (xs.splitOn sep).map (List.map f) := by
  induction xs with
  | nil => rfl
  | cons i xs ih =>
    obtain ⟨hi, hxs⟩ := List.forall_mem_cons.1 h
    obtain ⟨run, runs, hruns⟩ := List.exists_cons_of_ne_nil (List.splitOn_ne_nil sep xs)
    rw [List.map_cons, List.splitOn_cons_eq_if_modifyHead, List.splitOn_cons_eq_if_modifyHead,
      ih hxs, hruns]
    by_cases hsep : i = sep
    · subst hsep
      simp [hi.2 rfl]
    · simp [mt hi.1 hsep, hsep]

theorem stripFaces_map {f : UInt32 → UInt32} {indices : Array UInt32}
    (h : ∀ i ∈ indices, f i = restartIndex ↔ i = restartIndex) :
    stripFaces (indices.map f) = (stripFaces indices).map (Face.map f) := by
  apply Array.toList_inj.1
  rw [Array.toList_map, stripFaces_toList, stripFaces_toList, Array.toList_map,
    splitOn_map (by simpa using h), List.flatMap_map, List.map_flatMap]
  simp only [runFaces_map]

theorem listFaces_map (f : UInt32 → UInt32) (indices : Array UInt32) :
    listFaces (indices.map f) = (listFaces indices).map (Face.map f) := by
  apply Array.ext_getElem?
  intro k
  rw [Array.getElem?_map, getElem?_listFaces, getElem?_listFaces]
  by_cases h : 3 * k + 2 < indices.size <;> simp [h, Face.map]

/-! ## Faces of two buffers in one -/

/-- A restart keeps the strips before it and behind it apart. -/
theorem stripFaces_append_restart (first second : Array UInt32) :
    stripFaces (first ++ #[restartIndex] ++ second) = stripFaces first ++ stripFaces second := by
  apply Array.toList_inj.1
  simp [stripFaces_toList, List.splitOn_append_cons_self]

/-- No triangle of a list takes indices of two buffers if the first buffer has no rest. -/
theorem listFaces_append {first : Array UInt32} (h : 3 ∣ first.size) (second : Array UInt32) :
    listFaces (first ++ second) = listFaces first ++ listFaces second := by
  obtain ⟨n, hn⟩ := h
  have hfirst : (listFaces first).size = n := by rw [size_listFaces]; omega
  apply Array.ext_getElem?
  intro k
  simp only [Array.getElem?_append, hfirst, getElem?_listFaces, Array.size_append]
  by_cases hk : k < n
  · grind
  · have : 3 * k + 2 - first.size = 3 * (k - n) + 2 := by omega
    grind

namespace Mesh

variable {α : Type}

/-! ## Shifted indices -/

theorem shift_restartIndex (offset : UInt32) : shift offset restartIndex = restartIndex :=
  if_pos rfl

/-- An index of a vertex is shifted without overflow if the vertex behind the shift has an index. -/
theorem toNat_shift {n : Nat} {i : UInt32} (hi : i ≠ restartIndex)
    (hfits : n + i.toNat < restartIndex.toNat) :
    (shift (.ofNat n) i).toNat = n + i.toNat := by
  have hmax : restartIndex.toNat = 4294967295 := rfl
  unfold shift
  rw [if_neg hi, UInt32.toNat_add, UInt32.toNat_ofNat']
  omega

theorem shift_eq_restartIndex_iff {n : Nat} {i : UInt32}
    (hfits : i = restartIndex ∨ n + i.toNat < restartIndex.toNat) :
    shift (.ofNat n) i = restartIndex ↔ i = restartIndex := by
  constructor
  · intro h
    by_contra hi
    have hlt := hfits.resolve_left hi
    rw [← toNat_shift hi hlt, h] at hlt
    omega
  · rintro rfl
    exact shift_restartIndex _

/-! ## Appended meshes -/

/-- Every index is a restart or that of a vertex. -/
def IsIndexed (m : Mesh α) : Prop :=
  ∀ i ∈ m.indices, i = restartIndex ∨ i.toNat < m.vertexCount

instance (m : Mesh α) : Decidable m.IsIndexed :=
  decidable_of_iff (m.indices.toList.all fun i => i = restartIndex ∨ i.toNat < m.vertexCount)
    (by simp only [List.all_eq_true, decide_eq_true_eq, Array.mem_toList_iff, IsIndexed])

theorem isIndexed_empty (topology : Topology) : (empty topology : Mesh α).IsIndexed := by
  simp [IsIndexed, empty]

/-- No index of a triangle list is left over. -/
def IsWhole (m : Mesh α) : Prop := m.topology = .triangleList → 3 ∣ m.indices.size

instance (m : Mesh α) : Decidable m.IsWhole := inferInstanceAs (Decidable (_ → _))

/-- All vertices of both meshes together have an index. -/
def FitsBefore (first second : Mesh α) : Prop :=
  first.vertexCount + second.vertexCount ≤ restartIndex.toNat

instance (first second : Mesh α) : Decidable (first.FitsBefore second) :=
  inferInstanceAs (Decidable (_ ≤ _))

/-- The mesh has the vertices and the faces of `first`, and behind them those of `second`. -/
structure Joins (m first second : Mesh α) : Prop where
  topology : m.topology = first.topology
  positions : m.positions = first.positions ++ second.positions
  normals : m.normals = first.normals ++ second.normals
  colors : m.colors = first.colors ++ second.colors
  /-- No index overflows, and none becomes a restart. -/
  shift : ∀ i ∈ second.indices, i ≠ restartIndex →
    (shift (.ofNat first.vertexCount) i).toNat = first.vertexCount + i.toNat ∧
    shift (.ofNat first.vertexCount) i ≠ restartIndex
  faces : m.faces =
    first.faces ++ second.faces.map (Face.map (Mesh.shift (.ofNat first.vertexCount)))
  index : m.IsIndexed

section Append

variable {first second : Mesh α}

theorem lt_of_mem_indices (h : second.IsIndexed) (hfits : first.FitsBefore second) {i : UInt32}
    (hi : i ∈ second.indices) :
    i = restartIndex ∨ first.vertexCount + i.toNat < restartIndex.toNat := by
  unfold FitsBefore at hfits
  obtain h | h := h i hi
  · exact .inl h
  · exact .inr (by omega)

theorem indices_append (first second : Mesh α) : (first.append second).indices =
    first.indices ++ separator first.topology first.indices second.indices ++
      second.indices.map (shift (.ofNat first.vertexCount)) := rfl

/-- The faces of two strips, of which one may have no indices. -/
theorem stripFaces_separator (first second : Array UInt32) :
    stripFaces (first ++ separator .triangleStrip first second ++ second) =
      stripFaces first ++ stripFaces second := by
  unfold separator
  by_cases hfirst : first = #[]
  · simp [hfirst, stripFaces]
  by_cases hsecond : second = #[]
  · simp [hsecond, stripFaces]
  · simpa [hfirst, hsecond] using stripFaces_append_restart first second

theorem faces_append (hsame : first.topology = second.topology) (hsecond : second.IsIndexed)
    (hwhole : first.IsWhole) (hfits : first.FitsBefore second) :
    (first.append second).faces =
      first.faces ++ second.faces.map (Face.map (shift (.ofNat first.vertexCount))) := by
  unfold faces
  rw [indices_append, topology_append, ← hsame]
  cases htopology : first.topology with
  | triangleStrip =>
    have hrestart : ∀ i ∈ second.indices,
        shift (.ofNat first.vertexCount) i = restartIndex ↔ i = restartIndex :=
      fun i hi => shift_eq_restartIndex_iff (lt_of_mem_indices hsecond hfits hi)
    have hgap : separator .triangleStrip first.indices second.indices =
        separator .triangleStrip first.indices
          (second.indices.map (shift (.ofNat first.vertexCount))) := by
      simp [separator]
    simp only [Topology.faces]
    rw [hgap, stripFaces_separator, stripFaces_map hrestart]
  | triangleList =>
    simp only [Topology.faces, separator]
    rw [if_neg (by simp), Array.append_empty, listFaces_append (hwhole htopology), listFaces_map]

theorem isIndexed_append (hfirst : first.IsIndexed) (hsecond : second.IsIndexed)
    (hfits : first.FitsBefore second) : (first.append second).IsIndexed := by
  intro i hi
  rw [vertexCount_append]
  rw [indices_append, Array.mem_append, Array.mem_append, Array.mem_map] at hi
  obtain (hi | hi) | ⟨j, hj, rfl⟩ := hi
  · obtain h | h := hfirst i hi
    · exact .inl h
    · exact .inr (by omega)
  · unfold separator at hi
    split at hi
    · simp_all
    · simp at hi
  · by_cases hrestart : j = restartIndex
    · subst hrestart
      exact .inl (shift_restartIndex _)
    · have hlt := (lt_of_mem_indices hsecond hfits hj).resolve_left hrestart
      have := (hsecond j hj).resolve_left hrestart
      rw [toNat_shift hrestart hlt]
      omega

theorem joins_append (hsame : first.topology = second.topology) (hfirst : first.IsIndexed)
    (hsecond : second.IsIndexed) (hwhole : first.IsWhole) (hfits : first.FitsBefore second) :
    (first.append second).Joins first second where
  topology := topology_append first second
  positions := rfl
  normals := rfl
  colors := rfl
  shift := by
    intro i hi hrestart
    have hlt := lt_of_mem_indices hsecond hfits hi
    exact ⟨toNat_shift hrestart (hlt.resolve_left hrestart),
      mt (shift_eq_restartIndex_iff hlt).1 hrestart⟩
  faces := faces_append hsame hsecond hwhole hfits
  index := isIndexed_append hfirst hsecond hfits

/-! ## Merging -/

theorem merge_eq_ok_iff {m : Mesh α} :
    first.merge second = .ok m ↔
      first.topology = second.topology ∧ first.FitsBefore second ∧ first.append second = m := by
  unfold merge FitsBefore
  split
  · simp_all
  split
  · simp only [reduceCtorEq, false_iff]
    omega
  · simp only [Except.ok.injEq]
    constructor
    · intro h
      exact ⟨by simp_all, by omega, h⟩
    · exact fun h => h.2.2

theorem merge_eq_error_iff :
    (∃ e, first.merge second = .error e) ↔
      first.topology ≠ second.topology ∨ ¬first.FitsBefore second := by
  cases h : first.merge second with
  | ok m =>
    obtain ⟨hsame, hfits, -⟩ := merge_eq_ok_iff.1 h
    simp [hsame, hfits]
  | error e =>
    simp only [Except.error.injEq, exists_eq', true_iff]
    by_contra! hok
    have := merge_eq_ok_iff.2 ⟨hok.1, hok.2, rfl⟩
    simp [h] at this

/-- Merging in place changes nothing unless it succeeds. -/
theorem absorb_run (first second : Mesh α) :
    (absorb second).run first =
      match first.merge second with
      | .ok m => (.ok (), m)
      | .error e => (.error e, first) := by
  change ((liftM (first.merge second) >>= set : ExceptT MergeError (StateM (Mesh α)) Unit).run).run
    first = _
  cases first.merge second <;> rfl

/-- Two meshes of one topology are joined, unless they have too many vertices together. That and a
difference in topology are the only failures, after which the first mesh is what it was. -/
theorem absorb_joins (first second : Mesh α) :
    (first.topology = second.topology → first.IsIndexed → second.IsIndexed → first.IsWhole →
      first.FitsBefore second →
      ∃ m, (absorb second).run first = (.ok (), m) ∧ m.Joins first second) ∧
    ((∃ e m, (absorb second).run first = (.error e, m)) ↔
      first.topology ≠ second.topology ∨ ¬first.FitsBefore second) ∧
    ∀ e m, (absorb second).run first = (.error e, m) → m = first := by
  rw [absorb_run]
  refine ⟨?_, ?_, ?_⟩
  · intro hsame hfirst hsecond hwhole hfits
    rw [merge_eq_ok_iff.2 ⟨hsame, hfits, rfl⟩]
    exact ⟨_, rfl, joins_append hsame hfirst hsecond hwhole hfits⟩
  · rw [← merge_eq_error_iff]
    cases first.merge second with
    | ok m => exact ⟨fun ⟨_, _, h⟩ => (nomatch h), fun ⟨_, h⟩ => (nomatch h)⟩
    | error e => exact ⟨fun _ => ⟨e, rfl⟩, fun _ => ⟨e, first, rfl⟩⟩
  · intro e m h
    cases hmerge : first.merge second <;> rw [hmerge] at h <;> cases h
    rfl

/-- The strips of a triangle that is followed by a restart, and of a square behind another. -/
theorem absorb_joins_strips :
    let first : Mesh Float := ⟨.triangleStrip, .replicate 3 0, #[], #[], #[0, 1, 2, restartIndex]⟩
    let second : Mesh Float :=
      ⟨.triangleStrip, .replicate 4 0, #[], #[], #[restartIndex, 0, 1, 2, 3]⟩
    ∃ m, (absorb second).run first = (.ok (), m) ∧ m.Joins first second :=
  (absorb_joins _ _).1 rfl (by decide) (by decide) (by decide) (by decide)

end Append

/-! ## Several meshes -/

/-- The vertices of several meshes. -/
def vertexTotal : List (Mesh α) → Nat
  | [] => 0
  | m :: ms => m.vertexCount + vertexTotal ms

/-- The faces of several meshes behind one another, of which the first comes behind `n` vertices. -/
def facesFrom (n : Nat) : List (Mesh α) → List Face
  | [] => []
  | m :: ms => m.faces.toList.map (Face.map (shift (.ofNat n))) ++ facesFrom (n + m.vertexCount) ms

theorem foldlM_merge_eq_error_iff {first : Mesh α} (hfirst : first.vertexCount ≤ restartIndex.toNat)
    (ms : List (Mesh α)) :
    (∃ e, ms.foldlM merge first = .error e) ↔
      (∃ m ∈ ms, m.topology ≠ first.topology) ∨
        restartIndex.toNat < first.vertexCount + vertexTotal ms := by
  induction ms generalizing first with
  | nil =>
    simp [pure, Except.pure, vertexTotal]
    omega
  | cons m ms ih =>
    rw [List.foldlM_cons]
    cases h : first.merge m with
    | error e =>
      have hfail := merge_eq_error_iff.1 ⟨e, h⟩
      unfold FitsBefore at hfail
      simp only [bind, Except.bind, vertexTotal]
      grind
    | ok joined =>
      obtain ⟨hsame, hfits, rfl⟩ := merge_eq_ok_iff.1 h
      have hjoined : (first.append m).vertexCount ≤ restartIndex.toNat := by
        simpa [FitsBefore] using hfits
      simp [bind, Except.bind, ih hjoined, vertexTotal, hsame, Nat.add_assoc]

theorem exists_foldlM_merge {first : Mesh α} (hstrip : first.topology = .triangleStrip)
    (hfirst : first.IsIndexed) {ms : List (Mesh α)}
    (hms : ∀ m ∈ ms, m.topology = .triangleStrip ∧ m.IsIndexed)
    (hfits : first.vertexCount + vertexTotal ms ≤ restartIndex.toNat) :
    ∃ m, ms.foldlM merge first = .ok m ∧
      m.faces.toList = first.faces.toList ++ facesFrom first.vertexCount ms := by
  induction ms generalizing first with
  | nil => exact ⟨first, rfl, by simp [facesFrom]⟩
  | cons second ms ih =>
    obtain ⟨⟨hsecond, hindexed⟩, hms⟩ := List.forall_mem_cons.1 hms
    unfold vertexTotal at hfits
    have hsame : first.topology = second.topology := hstrip.trans hsecond.symm
    have hjoin : first.FitsBefore second := by
      unfold FitsBefore
      omega
    have hwhole : first.IsWhole := by simp [IsWhole, hstrip]
    have hfits' : (first.append second).vertexCount + vertexTotal ms ≤ restartIndex.toNat := by
      rw [vertexCount_append]
      omega
    have hstrip' := (topology_append first second).trans hstrip
    obtain ⟨m, hm, hfaces⟩ := ih hstrip' (isIndexed_append hfirst hindexed hjoin) hms hfits'
    refine ⟨m, ?_, ?_⟩
    · rw [List.foldlM_cons, merge_eq_ok_iff.2 ⟨hsame, hjoin, rfl⟩]
      exact hm
    · rw [hfaces, faces_append hsame hindexed hwhole hjoin]
      simp [facesFrom]

end Mesh

end ProceduralTree
