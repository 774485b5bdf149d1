import ProceduralTree.Proofs.Mesh.Surface
import ProceduralTree.Proofs.Mesh.TubeLayout
import ProceduralTree.Proofs.Mesh.TubeSurface
import ProceduralTree.Proofs.Mesh.Windows
import ProceduralTree.Proofs.Model.History

/-!
# Normals of merged meshes

The sums that make the normals of a merged mesh are two blocks, one for each of its parts. A face
of the first part adds to the first block what it adds without the second part, and a face of the
second part does the same to the second block. So it makes no difference whether normals are
computed before or after meshes are merged. No law of arithmetic is needed for this: every vertex
gets the same contributions in the same order.

## Main definitions

* `Face.IsIndexed` — a face whose corners are restarts or vertices.
* `Mesh.HasFaceNormals` — a mesh whose normals are those that its faces give.

## Main statements

* `addFaceNormal_append`, `addFaceNormal_append_shift` — what one face adds to the two blocks.
* `vertexNormals_append` — the normals of two parts.
* `Mesh.withNormals_append` — normals before and after merging.
* `Mesh.HasFaceNormals.foldlM_merge` — a row of meshes.
-/

namespace ProceduralTree

/-! ## Corners of faces -/

namespace Face

/-- Every corner is a restart or one of the first `n` vertices. -/
def IsIndexed (n : Nat) (f : Face) : Prop := ∀ i ∈ f.corners, i = restartIndex ∨ i.toNat < n

end Face

theorem mem_of_mem_listFaces {indices : Array UInt32} {f : Face} (hf : f ∈ listFaces indices)
    {i : UInt32} (hi : i ∈ f.corners) : i ∈ indices := by
  obtain ⟨k, hk⟩ := Array.getElem?_of_mem hf
  rw [getElem?_listFaces] at hk
  split at hk
  · cases hk
    simp only [Face.corners, List.mem_cons, List.not_mem_nil, or_false] at hi
    obtain rfl | rfl | rfl := hi <;> exact Array.getElem_mem _
  · cases hk

theorem mem_of_mem_stripFaces {indices : Array UInt32} {f : Face} (hf : f ∈ stripFaces indices)
    {i : UInt32} (hi : i ∈ f.corners) : i ∈ indices := by
  rw [← Array.mem_toList_iff, stripFaces_toList, List.mem_flatMap] at hf
  obtain ⟨run, hrun, hf⟩ := hf
  exact Array.mem_toList_iff.1 (mem_and_ne_of_mem_splitOn hrun (mem_of_mem_runFaces hf hi)).1

/-- The faces of a mesh refer to what its indices refer to. -/
theorem Mesh.IsIndexed.face {α : Type} {m : Mesh α} (h : m.IsIndexed) {f : Face}
    (hf : f ∈ m.faces) : f.IsIndexed m.vertexCount := by
  intro i hi
  refine h i ?_
  rw [Mesh.faces] at hf
  cases htopology : m.topology <;> rw [htopology] at hf
  · exact mem_of_mem_stripFaces hf hi
  · exact mem_of_mem_listFaces hf hi

/-! ## Two blocks of vertices -/

section Blocks

variable {β : Type} {first second : Array β}

theorem modify_append {i : Nat} (hi : i < first.size) (f : β → β) :
    (first ++ second).modify i f = first.modify i f ++ second := by
  apply Array.ext_getElem?
  intro j
  grind

theorem modify_append_add (i : Nat) (f : β → β) :
    (first ++ second).modify (first.size + i) f = first ++ second.modify i f := by
  apply Array.ext_getElem?
  intro j
  grind

/-- A reference to the first block finds the same in both blocks together. -/
theorem getElem?_append_of_isIndexed (hfits : first.size + second.size ≤ restartIndex.toNat)
    {i : UInt32} (hi : i = restartIndex ∨ i.toNat < first.size) :
    (first ++ second)[i.toNat]? = first[i.toNat]? := by
  obtain rfl | hi := hi
  · rw [Array.getElem?_eq_none (by simpa using hfits), Array.getElem?_eq_none (by omega)]
  · exact Array.getElem?_append_left hi

/-- A reference to the second block finds the same behind the first block, once it is shifted. -/
theorem getElem?_append_shift (hfits : first.size + second.size ≤ restartIndex.toNat)
    {i : UInt32} (hi : i = restartIndex ∨ i.toNat < second.size) :
    (first ++ second)[(Mesh.shift (.ofNat first.size) i).toNat]? = second[i.toNat]? := by
  by_cases hrestart : i = restartIndex
  · subst hrestart
    rw [Mesh.shift_restartIndex, Array.getElem?_eq_none (by simpa using hfits),
      Array.getElem?_eq_none (by omega)]
  · have hlt := hi.resolve_left hrestart
    rw [Mesh.toNat_shift hrestart (by omega), Array.getElem?_append_right (Nat.le_add_right _ _),
      Nat.add_sub_cancel_left]

end Blocks

variable {α : Type}

section Corners

variable {first second : Array (Vec3 α)} {f : Face}

theorem corners?_append (hfits : first.size + second.size ≤ restartIndex.toNat)
    (hf : f.IsIndexed first.size) : f.corners? (first ++ second) = f.corners? first := by
  simp only [Face.IsIndexed, Face.corners, List.forall_mem_cons] at hf
  obtain ⟨ha, hb, hc, -⟩ := hf
  simp only [Face.corners?, getElem?_append_of_isIndexed hfits, ha, hb, hc]

theorem corners?_append_shift (hfits : first.size + second.size ≤ restartIndex.toNat)
    (hf : f.IsIndexed second.size) :
    (f.map (Mesh.shift (.ofNat first.size))).corners? (first ++ second) = f.corners? second := by
  simp only [Face.IsIndexed, Face.corners, List.forall_mem_cons] at hf
  obtain ⟨ha, hb, hc, -⟩ := hf
  simp only [Face.corners?, Face.map, getElem?_append_shift hfits, ha, hb, hc]

theorem corners?_eq_some_iff {positions : Array (Vec3 α)} {p q r : Vec3 α} :
    f.corners? positions = some (p, q, r) ↔ positions[f.a.toNat]? = some p ∧
      positions[f.b.toNat]? = some q ∧ positions[f.c.toNat]? = some r := by
  simp [Face.corners?, Option.bind_eq_some_iff]

/-- A face that has corners in space refers to no vertex that is not there. -/
theorem toNat_lt_of_corners? {positions : Array (Vec3 α)} {corners : Vec3 α × Vec3 α × Vec3 α}
    (h : f.corners? positions = some corners) :
    f.a.toNat < positions.size ∧ f.b.toNat < positions.size ∧ f.c.toNat < positions.size := by
  obtain ⟨hp, hq, hr⟩ := corners?_eq_some_iff.1 h
  exact ⟨(Array.getElem?_eq_some_iff.1 hp).1, (Array.getElem?_eq_some_iff.1 hq).1,
    (Array.getElem?_eq_some_iff.1 hr).1⟩

end Corners

variable [Scalar α]

section Faces

variable {first second sums rest : Array (Vec3 α)} {f : Face}

/-- A face of the first part leaves the second block alone. -/
theorem addFaceNormal_append (hfits : first.size + second.size ≤ restartIndex.toNat)
    (hsums : sums.size = first.size) (hf : f.IsIndexed first.size) :
    addFaceNormal (first ++ second) (sums ++ rest) f = addFaceNormal first sums f ++ rest := by
  unfold addFaceNormal
  rw [corners?_append hfits hf]
  split
  · rfl
  next hcorners =>
    obtain ⟨ha, hb, hc⟩ := toNat_lt_of_corners? hcorners
    rw [← hsums] at ha hb hc
    split
    · rfl
    · simp only
      rw [modify_append ha, modify_append (by simpa using hb), modify_append (by simpa using hc)]

/-- A face of the second part leaves the first block alone. -/
theorem addFaceNormal_append_shift (hfits : first.size + second.size ≤ restartIndex.toNat)
    (hsums : sums.size = first.size) (hf : f.IsIndexed second.size) :
    addFaceNormal (first ++ second) (sums ++ rest) (f.map (Mesh.shift (.ofNat first.size))) =
      sums ++ addFaceNormal second rest f := by
  unfold addFaceNormal
  rw [corners?_append_shift hfits hf]
  split
  · rfl
  next hcorners =>
    obtain ⟨ha, hb, hc⟩ := toNat_lt_of_corners? hcorners
    -- A corner that exists is no restart, so its number is shifted without overflow.
    have hshift {i : UInt32} (hi : i.toNat < second.size) :
        (Mesh.shift (.ofNat first.size) i).toNat = sums.size + i.toNat := by
      rw [hsums]
      refine Mesh.toNat_shift ?_ (by omega)
      rintro rfl
      omega
    split
    · rfl
    · simp only [Face.map]
      rw [hshift ha, hshift hb, hshift hc, modify_append_add, modify_append_add, modify_append_add]

theorem foldl_addFaceNormal_append (hfits : first.size + second.size ≤ restartIndex.toNat)
    (hsums : sums.size = first.size) {faces : List Face}
    (hfaces : ∀ f ∈ faces, f.IsIndexed first.size) :
    faces.foldl (addFaceNormal (first ++ second)) (sums ++ rest) =
      faces.foldl (addFaceNormal first) sums ++ rest := by
  induction faces generalizing sums with
  | nil => rfl
  | cons f faces ih =>
    obtain ⟨hf, hfaces⟩ := List.forall_mem_cons.1 hfaces
    rw [List.foldl_cons, List.foldl_cons, addFaceNormal_append hfits hsums hf]
    exact ih (by rwa [size_addFaceNormal]) hfaces

theorem foldl_addFaceNormal_append_shift (hfits : first.size + second.size ≤ restartIndex.toNat)
    (hsums : sums.size = first.size) {faces : List Face}
    (hfaces : ∀ f ∈ faces, f.IsIndexed second.size) :
    (faces.map (Face.map (Mesh.shift (.ofNat first.size)))).foldl (addFaceNormal (first ++ second))
        (sums ++ rest) =
      sums ++ faces.foldl (addFaceNormal second) rest := by
  induction faces generalizing rest with
  | nil => rfl
  | cons f faces ih =>
    obtain ⟨hf, hfaces⟩ := List.forall_mem_cons.1 hfaces
    rw [List.map_cons, List.foldl_cons, List.foldl_cons, addFaceNormal_append_shift hfits hsums hf]
    exact ih hfaces

/-- The normals of two parts, of which the faces of the second come behind those of the first. -/
theorem vertexNormals_append (hfits : first.size + second.size ≤ restartIndex.toNat)
    {faces faces' : Array Face} (hfaces : ∀ f ∈ faces, f.IsIndexed first.size)
    (hfaces' : ∀ f ∈ faces', f.IsIndexed second.size) :
    vertexNormals (first ++ second)
        (faces ++ faces'.map (Face.map (Mesh.shift (.ofNat first.size)))) =
      vertexNormals first faces ++ vertexNormals second faces' := by
  have hblocks : Array.replicate (first ++ second).size (0 : Vec3 α) =
      .replicate first.size 0 ++ .replicate second.size 0 := by
    rw [Array.size_append, Array.replicate_append_replicate]
  have hsize : (faces.toList.foldl (addFaceNormal first) (.replicate first.size 0)).size =
      first.size := by
    rw [size_foldl_addFaceNormal, Array.size_replicate]
  simp only [vertexNormals, ← Array.foldl_toList, Array.toList_append, Array.toList_map,
    List.foldl_append]
  rw [hblocks, foldl_addFaceNormal_append hfits Array.size_replicate (by simpa using hfaces),
    foldl_addFaceNormal_append_shift hfits hsize (by simpa using hfaces'), Array.map_append]

end Faces

/-! ## Meshes -/

namespace Mesh

variable {a b m : Mesh α}

theorem withNormals_append (hsame : a.topology = b.topology) (ha : a.IsIndexed) (hb : b.IsIndexed)
    (hwhole : a.IsWhole) (hfits : a.FitsBefore b) :
    (a.append b).withNormals = a.withNormals.append b.withNormals := by
  have hnormals : (a.append b).withNormals.normals =
      a.withNormals.normals ++ b.withNormals.normals := by
    change vertexNormals (a.append b).positions (a.append b).faces = _
    rw [faces_append hsame hb hwhole hfits]
    exact vertexNormals_append hfits (fun f hf => ha.face hf) (fun f hf => hb.face hf)
  exact (Mesh.mk.injEq ..).mpr ⟨rfl, rfl, hnormals, rfl, rfl⟩

/-- The normals are those that the faces give. -/
def HasFaceNormals (m : Mesh α) : Prop := m.withNormals = m

theorem hasFaceNormals_ofShape (topology : Topology) (positions : Array (Vec3 α))
    (indices : Array UInt32) (color : Rgb) :
    (ofShape topology positions indices color).HasFaceNormals := rfl

theorem hasFaceNormals_empty (topology : Topology) : (empty topology : Mesh α).HasFaceNormals := by
  have hsize := size_vertexNormals (#[] : Array (Vec3 α)) (empty topology : Mesh α).faces
  exact (Mesh.mk.injEq ..).mpr ⟨rfl, rfl, Array.size_eq_zero_iff.1 hsize, rfl, rfl⟩

/-- A row of strips that are merged keep their normals. -/
theorem HasFaceNormals.foldlM_merge (ha : a.HasFaceNormals) (hstrip : a.topology = .triangleStrip)
    (hindexed : a.IsIndexed) {ms : List (Mesh α)}
    (hms : ∀ b ∈ ms, b.HasFaceNormals ∧ b.IsIndexed) (h : ms.foldlM merge a = .ok m) :
    m.HasFaceNormals := by
  induction ms generalizing a with
  | nil =>
    cases h
    exact ha
  | cons b ms ih =>
    obtain ⟨⟨hb, hindexed'⟩, hms⟩ := List.forall_mem_cons.1 hms
    rw [List.foldlM_cons, bind_eq_ok] at h
    obtain ⟨ab, hab, h⟩ := h
    obtain ⟨hsame, hfits, rfl⟩ := merge_eq_ok_iff.1 hab
    have hwhole : a.IsWhole := by simp [IsWhole, hstrip]
    refine ih ?_ ?_ (isIndexed_append hindexed hindexed' hfits) hms h
    · rw [HasFaceNormals, withNormals_append hsame hindexed hindexed' hwhole hfits, ha, hb]
    · rwa [topology_append]

end Mesh

namespace Tube

variable {t : Tube α} {m : Mesh α}

theorem hasFaceNormals (h : t.mesh = .ok m) : m.HasFaceNormals := by
  obtain ⟨-, -, -, positions, -, rfl⟩ := mesh_eq_ok.1 h
  exact Mesh.hasFaceNormals_ofShape ..

theorem topology_mesh (h : t.mesh = .ok m) : m.topology = .triangleStrip := by
  obtain ⟨-, -, -, positions, -, rfl⟩ := mesh_eq_ok.1 h
  rfl

theorem vertexCount_mesh (h : t.mesh = .ok m) : m.vertexCount = t.grid.size := by
  obtain ⟨-, -, -, positions, hpositions, rfl⟩ := mesh_eq_ok.1 h
  exact size_positions hpositions

theorem isIndexed_mesh (h : t.mesh = .ok m) : m.IsIndexed := by
  have hcount := vertexCount_mesh h
  obtain ⟨-, -, hfits, positions, -, rfl⟩ := mesh_eq_ok.1 h
  intro i hi
  obtain hrestart | ⟨site, hsite, rfl⟩ := TubeGrid.exists_site_of_mem_indices hi
  · exact .inl hrestart
  · refine .inr ?_
    rw [TubeGrid.toNat_index hfits hsite, hcount]
    exact TubeGrid.number_lt_size hsite

/-- Every triangle has corners in space. -/
theorem exists_corners? (hm : t.mesh = .ok m) {f : Face} (hf : f ∈ m.faces) :
    ∃ p q r, f.corners? m.positions = some (p, q, r) := by
  have hindexed : ∀ i ∈ f.corners, ∃ p, m.positions[i.toNat]? = some p := by
    intro i hi
    have hrestart := Mesh.restartIndex_not_mem_corners (topology_mesh hm) hf
    obtain rfl | hlt := (isIndexed_mesh hm).face hf i hi
    · exact absurd hi hrestart
    · exact ⟨_, Array.getElem?_eq_getElem hlt⟩
  obtain ⟨p, hp⟩ := hindexed f.a (by simp [Face.corners])
  obtain ⟨q, hq⟩ := hindexed f.b (by simp [Face.corners])
  obtain ⟨r, hr⟩ := hindexed f.c (by simp [Face.corners])
  exact ⟨p, q, r, corners?_eq_some_iff.2 ⟨hp, hq, hr⟩⟩

end Tube

/-! ## Barks -/

namespace Model

variable {S K : Type} [MeshArena S α K] [LawfulMeshArena S] {leaf bark : Mesh α}
  {calls : List (Call α)}

/-- The bark of tubes has the normals that its faces give. -/
theorem hasFaceNormals_bark
    (htubes : ∀ mesh ∈ calls.filterMap Call.bark?, ∃ t : Tube α, t.mesh = .ok mesh)
    (h : ((ofLeaf leaf : Model α S K).after calls).bark = .ok bark) : bark.HasFaceNormals := by
  rw [((records_ofLeaf leaf).after calls).bark_eq, List.nil_append] at h
  cases hmerge : (calls.filterMap Call.bark?).foldlM Mesh.merge (.empty .triangleStrip) with
  | error e =>
    rw [hmerge] at h
    cases h
  | ok m =>
    rw [hmerge] at h
    cases h
    refine (Mesh.hasFaceNormals_empty .triangleStrip).foldlM_merge rfl
      (Mesh.isIndexed_empty .triangleStrip) ?_ hmerge
    intro mesh hmesh
    obtain ⟨t, ht⟩ := htubes mesh hmesh
    exact ⟨Tube.hasFaceNormals ht, Tube.isIndexed_mesh ht⟩

end Model

namespace Mesh

/-- Two meshes of one topology that fit into one have the same normals whether these are computed
before the meshes are merged or after that. The bark of tubes therefore has the normals that its
faces give, although it only takes over those of the tubes. -/
theorem merge_withNormals :
    (∀ a b : Mesh α, a.topology = b.topology → a.IsIndexed → b.IsIndexed → a.IsWhole →
      a.FitsBefore b → ∃ m, a.merge b = .ok m ∧
        m.withNormals.normals = a.withNormals.normals ++ b.withNormals.normals ∧
        a.withNormals.merge b.withNormals = .ok m.withNormals) ∧
    ∀ (S K : Type) [MeshArena S α K] [LawfulMeshArena S] (leaf bark : Mesh α)
      (calls : List (Model.Call α)),
      (∀ mesh ∈ calls.filterMap Model.Call.bark?, ∃ t : Tube α, t.mesh = .ok mesh) →
      ((Model.ofLeaf leaf : Model α S K).after calls).bark = .ok bark →
      bark.withNormals.normals = bark.normals := by
  refine ⟨?_, ?_⟩
  · intro a b hsame ha hb hwhole hfits
    have happend := withNormals_append hsame ha hb hwhole hfits
    refine ⟨a.append b, merge_eq_ok_iff.2 ⟨hsame, hfits, rfl⟩, ?_, ?_⟩
    · rw [happend]
      rfl
    · exact merge_eq_ok_iff.2 ⟨hsame, hfits, happend.symm⟩
  · intro S K _ _ leaf bark calls htubes hbark
    rw [Model.hasFaceNormals_bark htubes hbark]

/-- Two prisms, one of them open, side by side and as the branches of a model with a leaf. -/
theorem merge_withNormals_prisms : ∃ closed tunnel m bark : Mesh ℝ,
    (Tube.prism true).mesh = .ok closed ∧ (Tube.prism false).mesh = .ok tunnel ∧
    closed.merge tunnel = .ok m ∧
    m.withNormals.normals = closed.withNormals.normals ++ tunnel.withNormals.normals ∧
    ((Model.ofLeaf (.empty .triangleList) : Model ℝ).after
      [.addBranch closed, .addLeaf .identity, .addBranch tunnel]).bark = .ok bark ∧
    bark.withNormals.normals = bark.normals := by
  obtain ⟨closed, hclosed⟩ := Tube.exists_mesh_prism true
  obtain ⟨tunnel, htunnel⟩ := Tube.exists_mesh_prism false
  have htopology : closed.topology = tunnel.topology :=
    (Tube.topology_mesh hclosed).trans (Tube.topology_mesh htunnel).symm
  have hwhole : closed.IsWhole := by simp [IsWhole, Tube.topology_mesh hclosed]
  have hfits : closed.vertexCount + tunnel.vertexCount ≤ restartIndex.toNat := by
    rw [Tube.vertexCount_mesh hclosed, Tube.vertexCount_mesh htunnel]
    decide
  have hbarks : ∀ mesh ∈ [closed, tunnel], ∃ t : Tube ℝ, t.mesh = .ok mesh := by
    rw [List.forall_mem_cons, List.forall_mem_singleton]
    exact ⟨⟨_, hclosed⟩, ⟨_, htunnel⟩⟩
  have hstrips : ∀ mesh ∈ [closed, tunnel], mesh.topology = .triangleStrip ∧ mesh.IsIndexed := by
    intro mesh hmesh
    obtain ⟨t, ht⟩ := hbarks mesh hmesh
    exact ⟨Tube.topology_mesh ht, Tube.isIndexed_mesh ht⟩
  have hrecords : ((Model.ofLeaf (.empty .triangleList) : Model ℝ).after
      [.addBranch closed, .addLeaf .identity, .addBranch tunnel]).Records (.empty .triangleList)
      [.addBranch closed, .addLeaf .identity, .addBranch tunnel] :=
    (Model.records_ofLeaf _).after _
  obtain ⟨bark, hbark, -⟩ := hrecords.exists_bark_eq_ok hstrips hfits
  obtain ⟨hmerge, hmodel⟩ := merge_withNormals (α := ℝ)
  obtain ⟨m, hm, hnormals, -⟩ := hmerge closed tunnel htopology (Tube.isIndexed_mesh hclosed)
    (Tube.isIndexed_mesh htunnel) hwhole hfits
  exact ⟨closed, tunnel, m, bark, hclosed, htunnel, hm, hnormals, hbark,
    hmodel (MeshStore ℝ) MeshId (.empty .triangleList) bark
      [.addBranch closed, .addLeaf .identity, .addBranch tunnel] hbarks hbark⟩

end Mesh

end ProceduralTree
