import ProceduralTree.Proofs.Curve.Segment
import ProceduralTree.Proofs.Mesh.Surface

/-!
# Surface of a tube

The triangles of a tube that have three different corners form a surface. Two lie between any two
neighbours on a ring and the same two on the next ring, and one, if caps are drawn, between two
neighbours on an end ring and the center. Triangles are named by their places (`Pane`), so that
`TubeGrid.left` can say which triangle lies to the left of a directed edge.

## Main definitions

* `Face.edges` — the directed edges of a triangle along its winding.
* `Pane` — a triangle by its place; `TubeGrid.face` is the triangle itself.
* `TubeGrid.left` — the triangle to the left of a directed edge.

## Main statements

* `TubeGrid.left_eq` — no two triangles share a directed edge.
* `TubeGrid.swap_mem_edges` — every edge is run through both ways, the open ends apart.
* `TubeGrid.filter_stripFaces` — what the strips decode to, degenerate triangles left out.
* `Tube.mesh_surface` — a tube with caps is closed; one without is open at its end rings only.
-/

namespace ProceduralTree

/-- A triangle of a tube by its place. -/
inductive Pane where
  /-- With an edge on ring `i`, from the neighbour of vertex `j` to vertex `j`. -/
  | lower (i j : Nat)
  /-- With an edge on ring `i + 1`, from vertex `j` to its neighbour. -/
  | upper (i j : Nat)
  /-- Of the cap over the first ring. -/
  | start (j : Nat)
  /-- Of the cap over the last ring. -/
  | stop (j : Nat)
deriving DecidableEq, Repr

namespace TubeGrid

variable (g : TubeGrid)

/-- The corners of a triangle in the order of its winding. -/
def corners : Pane → Site × Site × Site
  | .lower i j => (.rim i j, .rim (i + 1) j, .rim i (g.next j))
  | .upper i j => (.rim i (g.next j), .rim (i + 1) j, .rim (i + 1) (g.next j))
  | .start j => (.first, .rim 0 j, .rim 0 (g.next j))
  | .stop j => (.rim g.segments.toNat j, .last, .rim g.segments.toNat (g.next j))

/-- Whether a tube has a triangle at a place. -/
def HasPane : Pane → Prop
  | .lower i j => i < g.segments.toNat ∧ j < g.radial.toNat
  | .upper i j => i < g.segments.toNat ∧ j < g.radial.toNat
  | .start j => g.caps = true ∧ j < g.radial.toNat
  | .stop j => g.caps = true ∧ j < g.radial.toNat

/-- The directed edges of a triangle along its winding. -/
def edges (p : Pane) : List (Site × Site) :=
  let (a, b, c) := g.corners p
  [(a, b), (b, c), (c, a)]

/-- The neighbour of vertex `j` on its ring the other way round. -/
def prev (j : Nat) : Nat := if j = 0 then g.radial.toNat - 1 else j - 1

/-- The triangle to the left of a directed edge. -/
def left : Site × Site → Pane
  | (.rim i j, .rim i' j') =>
    if i' = i + 1 then if j' = j then .lower i j else .upper i j'
    else if i = i' + 1 then if j' = j then .upper i' (g.prev j) else .lower i' j
    else if j' = g.next j then if i = 0 then .start j else .upper (i - 1) j
    else if i = g.segments.toNat then .stop j' else .lower i j'
  | (.rim _ j, .first) => .start (g.prev j)
  | (.rim _ j, .last) => .stop j
  | (.last, .rim _ j) => .stop (g.prev j)
  | (_, .rim _ j) => .start j
  | (_, _) => .start 0

variable {g} {i j : Nat} {e : Site × Site}

theorem next_ne (hr : 2 ≤ g.radial.toNat) (j : Nat) : g.next j ≠ j := by
  grind [next]

/-- On a ring of three or more, no two vertices are neighbours of each other both ways round. -/
theorem next_next_ne (hr : 3 ≤ g.radial.toNat) (j : Nat) : g.next (g.next j) ≠ j := by
  grind [next]

theorem prev_lt (hj : j < g.radial.toNat) : g.prev j < g.radial.toNat := by
  grind [prev]

theorem next_prev (hj : j < g.radial.toNat) : g.next (g.prev j) = j := by
  grind [next, prev]

theorem prev_next (j : Nat) : g.prev (g.next j) = j := by
  grind [next, prev]

theorem mem_edges_lower : e ∈ g.edges (.lower i j) ↔ e = (.rim i j, .rim (i + 1) j) ∨
    e = (.rim (i + 1) j, .rim i (g.next j)) ∨ e = (.rim i (g.next j), .rim i j) := by
  simp [edges, corners]

theorem mem_edges_upper : e ∈ g.edges (.upper i j) ↔
    e = (.rim i (g.next j), .rim (i + 1) j) ∨ e = (.rim (i + 1) j, .rim (i + 1) (g.next j)) ∨
      e = (.rim (i + 1) (g.next j), .rim i (g.next j)) := by
  simp [edges, corners]

theorem mem_edges_start : e ∈ g.edges (.start j) ↔ e = (.first, .rim 0 j) ∨
    e = (.rim 0 j, .rim 0 (g.next j)) ∨ e = (.rim 0 (g.next j), .first) := by
  simp [edges, corners]

theorem mem_edges_stop : e ∈ g.edges (.stop j) ↔ e = (.rim g.segments.toNat j, .last) ∨
    e = (.last, .rim g.segments.toNat (g.next j)) ∨
      e = (.rim g.segments.toNat (g.next j), .rim g.segments.toNat j) := by
  simp [edges, corners]

/-- A triangle lies to the left of its edges, and so no two triangles share a directed edge. -/
theorem left_eq (hr : 3 ≤ g.radial.toNat) {p : Pane} (hp : g.HasPane p) (he : e ∈ g.edges p) :
    g.left e = p := by
  have hne := next_ne (g := g) (by omega)
  have hne' := next_next_ne hr
  have hskip (i : Nat) : ¬i = i + 1 + 1 := by omega
  cases p with
  | lower i j =>
    obtain rfl | rfl | rfl := mem_edges_lower.1 he
    · simp [left]
    · simp [left, hne, hskip]
    · simp [left, (hne' j).symm, hp.1.ne]
  | upper i j =>
    obtain rfl | rfl | rfl := mem_edges_upper.1 he
    · simp [left, (hne j).symm]
    · simp [left]
    · simp [left, prev_next, hskip]
  | start j =>
    obtain rfl | rfl | rfl := mem_edges_start.1 he
    · simp [left]
    · simp [left]
    · simp [left, prev_next]
  | stop j =>
    obtain rfl | rfl | rfl := mem_edges_stop.1 he
    · simp [left]
    · simp [left, prev_next]
    · simp [left, (hne' j).symm]

/-- The directed edges of the end rings that have a triangle of a side to their left. -/
def IsBorder (g : TubeGrid) (e : Site × Site) : Prop :=
  ∃ j < g.radial.toNat, e = (.rim 0 (g.next j), .rim 0 j) ∨
    e = (.rim g.segments.toNat j, .rim g.segments.toNat (g.next j))

/-- An edge of a triangle is run through the other way by another, unless it is at an open end. -/
theorem swap_mem_edges {p : Pane} (hp : g.HasPane p) (he : e ∈ g.edges p) :
    (∃ q, g.HasPane q ∧ e.swap ∈ g.edges q) ∨ g.caps = false ∧ g.IsBorder e := by
  have hs := segments_pos (g := g)
  cases p with
  | lower i j =>
    obtain ⟨hi, hj⟩ := hp
    obtain rfl | rfl | rfl := mem_edges_lower.1 he
    · refine .inl ⟨.upper i (g.prev j), ⟨hi, prev_lt hj⟩, mem_edges_upper.2 (.inr (.inr ?_))⟩
      rw [next_prev hj, Prod.swap]
    · exact .inl ⟨.upper i j, ⟨hi, hj⟩, mem_edges_upper.2 (.inl rfl)⟩
    · obtain rfl | hpos := Nat.eq_zero_or_pos i
      · by_cases hcaps : g.caps = true
        · exact .inl ⟨.start j, ⟨hcaps, hj⟩, mem_edges_start.2 (.inr (.inl rfl))⟩
        · exact .inr ⟨by simpa using hcaps, j, hj, .inl rfl⟩
      · refine .inl ⟨.upper (i - 1) j, ⟨by omega, hj⟩, mem_edges_upper.2 (.inr (.inl ?_))⟩
        rw [Nat.sub_add_cancel hpos, Prod.swap]
  | upper i j =>
    obtain ⟨hi, hj⟩ := hp
    obtain rfl | rfl | rfl := mem_edges_upper.1 he
    · exact .inl ⟨.lower i j, ⟨hi, hj⟩, mem_edges_lower.2 (.inr (.inl rfl))⟩
    · obtain hi' | hi' : i + 1 < g.segments.toNat ∨ i + 1 = g.segments.toNat := by omega
      · exact .inl ⟨.lower (i + 1) j, ⟨hi', hj⟩, mem_edges_lower.2 (.inr (.inr rfl))⟩
      · by_cases hcaps : g.caps = true
        · exact .inl ⟨.stop j, ⟨hcaps, hj⟩, mem_edges_stop.2 (.inr (.inr (by rw [hi', Prod.swap])))⟩
        · exact .inr ⟨by simpa using hcaps, j, hj, .inr (by rw [hi'])⟩
    · exact .inl ⟨.lower i (g.next j), ⟨hi, next_lt hj⟩, mem_edges_lower.2 (.inl rfl)⟩
  | start j =>
    obtain ⟨hcaps, hj⟩ := hp
    obtain rfl | rfl | rfl := mem_edges_start.1 he
    · refine .inl ⟨.start (g.prev j), ⟨hcaps, prev_lt hj⟩, mem_edges_start.2 (.inr (.inr ?_))⟩
      rw [next_prev hj, Prod.swap]
    · exact .inl ⟨.lower 0 j, ⟨hs, hj⟩, mem_edges_lower.2 (.inr (.inr rfl))⟩
    · exact .inl ⟨.start (g.next j), ⟨hcaps, next_lt hj⟩, mem_edges_start.2 (.inl rfl)⟩
  | stop j =>
    obtain ⟨hcaps, hj⟩ := hp
    obtain rfl | rfl | rfl := mem_edges_stop.1 he
    · refine .inl ⟨.stop (g.prev j), ⟨hcaps, prev_lt hj⟩, mem_edges_stop.2 (.inr (.inl ?_))⟩
      rw [next_prev hj, Prod.swap]
    · exact .inl ⟨.stop (g.next j), ⟨hcaps, next_lt hj⟩, mem_edges_stop.2 (.inl rfl)⟩
    · refine .inl ⟨.upper (g.segments.toNat - 1) j, ⟨by omega, hj⟩,
        mem_edges_upper.2 (.inr (.inl ?_))⟩
      rw [Nat.sub_add_cancel hs, Prod.swap]

theorem exists_mem_edges_of_isBorder (h : g.IsBorder e) : ∃ p, g.HasPane p ∧ e ∈ g.edges p := by
  have hs := segments_pos (g := g)
  obtain ⟨j, hj, rfl | rfl⟩ := h
  · exact ⟨.lower 0 j, ⟨hs, hj⟩, mem_edges_lower.2 (.inr (.inr rfl))⟩
  · refine ⟨.upper (g.segments.toNat - 1) j, ⟨by omega, hj⟩, mem_edges_upper.2 (.inr (.inl ?_))⟩
    rw [Nat.sub_add_cancel hs]

/-- Only a cap could have the other side of a border edge. -/
theorem swap_not_mem_edges_of_isBorder (hr : 3 ≤ g.radial.toNat) (hcaps : g.caps = false)
    (h : g.IsBorder e) {q : Pane} (hq : g.HasPane q) : e.swap ∉ g.edges q := by
  intro he
  have hleft := left_eq hr hq he
  obtain ⟨j, -, rfl | rfl⟩ := h
  · have : g.left (.rim 0 j, .rim 0 (g.next j)) = .start j := by simp [left]
    rw [Prod.swap, this] at hleft
    subst hleft
    exact absurd hq.1 (by simp [hcaps])
  · have : g.left (.rim g.segments.toNat (g.next j), .rim g.segments.toNat j) = .stop j := by
      simp [left, (next_next_ne hr j).symm]
    rw [Prod.swap, this] at hleft
    subst hleft
    exact absurd hq.1 (by simp [hcaps])

/-! ## Triangles of words -/

variable (g) in
/-- The triangle at a place. -/
def face (p : Pane) : Face :=
  let (a, b, c) := g.corners p
  ⟨g.index a, g.index b, g.index c⟩

variable (g) in
/-- The triangles between ring `i` and the next ring. -/
def sidePanes (i : Nat) : List Pane :=
  (List.range g.radial.toNat).flatMap fun j => [.lower i j, .upper i j]

variable (g) in
/-- All triangles, in the order of the strips. -/
def panes : List Pane :=
  (List.range g.segments.toNat).flatMap g.sidePanes
    ++ if g.caps then
      (List.range g.radial.toNat).map .start ++ (List.range g.radial.toNat).map .stop
    else []

variable {p : Pane}

theorem mem_sidePanes :
    p ∈ g.sidePanes i ↔ ∃ j < g.radial.toNat, p = .lower i j ∨ p = .upper i j := by
  simp [sidePanes]

theorem mem_panes : p ∈ g.panes ↔ g.HasPane p := by
  cases p <;> by_cases hcaps : g.caps <;> simp [panes, mem_sidePanes, HasPane, hcaps]

theorem nodup_sidePanes (g : TubeGrid) (i : Nat) : (g.sidePanes i).Nodup := by
  refine List.nodup_flatMap.2 ⟨fun j _ => by simp, List.nodup_range.imp ?_⟩
  intro j j' hne
  simp [Function.onFun, hne.symm]

theorem nodup_panes (g : TubeGrid) : g.panes.Nodup := by
  have hsides : ((List.range g.segments.toNat).flatMap g.sidePanes).Nodup := by
    refine List.nodup_flatMap.2 ⟨fun i _ => nodup_sidePanes g i, List.nodup_range.imp ?_⟩
    intro i i' hne p hp hp'
    obtain ⟨j, -, hp⟩ := mem_sidePanes.1 hp
    obtain ⟨j', -, hp'⟩ := mem_sidePanes.1 hp'
    grind
  rw [panes, List.nodup_append]
  refine ⟨hsides, ?_, ?_⟩
  · split
    · refine List.nodup_append.2 ⟨?_, ?_, by simp⟩ <;>
        exact List.nodup_range.map fun _ _ h => by simpa using h
    · exact .nil
  · intro p hp q hq
    obtain ⟨i, -, hp⟩ := List.mem_flatMap.1 hp
    obtain ⟨j, -, hp⟩ := mem_sidePanes.1 hp
    split at hq <;> grind

theorem length_panes (g : TubeGrid) :
    g.panes.length = 2 * g.radial.toNat * g.segments.toNat
      + if g.caps then 2 * g.radial.toNat else 0 := by
  have hside (i : Nat) : (g.sidePanes i).length = 2 * g.radial.toNat := by
    simp [sidePanes, List.length_flatMap, List.map_const', Nat.mul_comm]
  rw [panes, List.length_append, List.length_flatMap]
  simp only [hside, List.map_const', List.length_range, List.sum_replicate_nat]
  split
  · simp
    ring
  · simp
    ring

theorem has_of_mem_edges (hp : g.HasPane p) (he : e ∈ g.edges p) : g.Has e.1 ∧ g.Has e.2 := by
  have hs := segments_pos (g := g)
  have hrim {i j : Nat} (hi : i ≤ g.segments.toNat) (hj : j < g.radial.toNat) :
      g.Has (.rim i j) := ⟨hi, hj⟩
  cases p with
  | lower i j =>
    obtain ⟨hi, hj⟩ := hp
    obtain rfl | rfl | rfl := mem_edges_lower.1 he
    · exact ⟨hrim hi.le hj, hrim hi hj⟩
    · exact ⟨hrim hi hj, hrim hi.le (next_lt hj)⟩
    · exact ⟨hrim hi.le (next_lt hj), hrim hi.le hj⟩
  | upper i j =>
    obtain ⟨hi, hj⟩ := hp
    obtain rfl | rfl | rfl := mem_edges_upper.1 he
    · exact ⟨hrim hi.le (next_lt hj), hrim hi hj⟩
    · exact ⟨hrim hi hj, hrim hi (next_lt hj)⟩
    · exact ⟨hrim hi (next_lt hj), hrim hi.le (next_lt hj)⟩
  | start j =>
    obtain ⟨hcaps, hj⟩ := hp
    obtain rfl | rfl | rfl := mem_edges_start.1 he
    · exact ⟨hcaps, hrim hs.le hj⟩
    · exact ⟨hrim hs.le hj, hrim hs.le (next_lt hj)⟩
    · exact ⟨hrim hs.le (next_lt hj), hcaps⟩
  | stop j =>
    obtain ⟨hcaps, hj⟩ := hp
    obtain rfl | rfl | rfl := mem_edges_stop.1 he
    · exact ⟨hrim le_rfl hj, hcaps⟩
    · exact ⟨hcaps, hrim le_rfl (next_lt hj)⟩
    · exact ⟨hrim le_rfl (next_lt hj), hrim le_rfl hj⟩

theorem has_corners (hp : g.HasPane p) :
    g.Has (g.corners p).1 ∧ g.Has (g.corners p).2.1 ∧ g.Has (g.corners p).2.2 :=
  ⟨(has_of_mem_edges hp List.mem_cons_self).1,
    has_of_mem_edges hp (List.mem_cons_of_mem _ List.mem_cons_self)⟩

theorem edges_face (g : TubeGrid) (p : Pane) :
    (g.face p).edges = (g.edges p).map (Prod.map g.index g.index) := rfl

theorem index_pair_mem_edges_face (hfits : g.Fits) (hp : g.HasPane p) (he : g.Has e.1 ∧ g.Has e.2) :
    Prod.map g.index g.index e ∈ (g.face p).edges ↔ e ∈ g.edges p := by
  rw [edges_face, List.mem_map]
  constructor
  · rintro ⟨e', he', h⟩
    have hsites := has_of_mem_edges hp he'
    obtain ⟨h₁, h₂⟩ := Prod.ext_iff.1 h
    have : e' = e :=
      Prod.ext ((index_inj hfits hsites.1 he.1).1 h₁) ((index_inj hfits hsites.2 he.2).1 h₂)
    exact this ▸ he'
  · exact fun h => ⟨e, h, rfl⟩

theorem isProper_face (hfits : g.Fits) (hr : 3 ≤ g.radial.toNat) (hp : g.HasPane p) :
    (g.face p).IsProper := by
  have hne := next_ne (g := g) (by omega)
  have hsites : ∀ e ∈ g.edges p, e.1 ≠ e.2 := by
    intro e he
    cases p with
    | lower i j => obtain rfl | rfl | rfl := mem_edges_lower.1 he <;> simp [hne]
    | upper i j => obtain rfl | rfl | rfl := mem_edges_upper.1 he <;> simp [(hne _).symm]
    | start j => obtain rfl | rfl | rfl := mem_edges_start.1 he <;> simp [(hne _).symm]
    | stop j => obtain rfl | rfl | rfl := mem_edges_stop.1 he <;> simp [hne]
  rw [Face.isProper_iff, edges_face]
  intro words hwords heq
  obtain ⟨e, he, rfl⟩ := List.mem_map.1 hwords
  have := has_of_mem_edges hp he
  exact hsites e he ((index_inj hfits this.1 this.2).1 heq)

/-! ## Decoding -/

theorem exists_radial_eq (g : TubeGrid) : ∃ n, g.radial.toNat = n + 1 :=
  Nat.exists_eq_succ_of_ne_zero (Nat.ne_of_gt radial_pos)

/-- A row of pairs that closes on itself: every vertex is taken with its neighbour. -/
theorem flatMap_next {β : Type} (f : Nat → Nat → List β) {n : Nat} (hn : g.radial.toNat = n + 1) :
    (List.range g.radial.toNat).flatMap (fun j => f j (g.next j)) =
      (List.range n).flatMap (fun j => f j (j + 1)) ++ f n 0 := by
  have hlast : g.next n = 0 := by simp [next, hn]
  rw [hn, List.range_succ, List.flatMap_append, List.flatMap_singleton, hlast]
  congr 1
  apply List.flatMap_congr
  intro j hj
  have := List.mem_range.1 hj
  rw [next, if_neg (by omega)]

theorem runFaces_sideSites (g : TubeGrid) (i : Nat) :
    runFaces false ((g.sideSites i).map g.index) = (g.sidePanes i).map g.face := by
  obtain ⟨n, hn⟩ := exists_radial_eq g
  have hfaces := flatMap_next (g := g) (fun j k => pairFaces (g.index (.rim i j))
    (g.index (.rim (i + 1) j)) (g.index (.rim i k)) (g.index (.rim (i + 1) k))) hn
  calc runFaces false ((g.sideSites i).map g.index)
      = (List.range n).flatMap (fun j => pairFaces (g.index (.rim i j))
          (g.index (.rim (i + 1) j)) (g.index (.rim i (j + 1))) (g.index (.rim (i + 1) (j + 1))))
          ++ runFaces false [g.index (.rim i n), g.index (.rim (i + 1) n), g.index (.rim i 0),
            g.index (.rim (i + 1) 0)] := by
        rw [sideSites, List.map_append, map_zigzag, hn, runFaces_zigzag]
        rfl
    _ = (g.sidePanes i).map g.face := by
        rw [sidePanes, List.map_flatMap]
        exact hfaces.symm

/-- Of the two triangles between a pair of vertices of a cap's strip and the next pair, the one that
has the center twice is degenerate. -/
theorem filter_runFaces_fan_left (c : UInt32) (v : Nat → UInt32) (n : Nat) :
    (runFaces false (zigzag (fun _ => c) v (n + 1) ++ [v 0])).filter (fun f => f.IsProper) =
      ((List.range n).flatMap (fun j => [Face.mk c (v j) (v (j + 1))]) ++
        [Face.mk c (v n) (v 0)]).filter fun f => f.IsProper := by
  have hpair (a b : UInt32) : (pairFaces c a c b).filter (fun f => f.IsProper) =
      [Face.mk c a b].filter fun f => f.IsProper := by
    simp [pairFaces, Face.IsProper]
  rw [runFaces_zigzag, List.filter_append, List.filter_append, List.filter_flatMap,
    List.filter_flatMap]
  simp only [hpair]
  rfl

theorem filter_runFaces_fan_right (c : UInt32) (v : Nat → UInt32) (n : Nat) :
    (runFaces false (zigzag v (fun _ => c) (n + 1) ++ [v 0])).filter (fun f => f.IsProper) =
      ((List.range n).flatMap (fun j => [Face.mk (v j) c (v (j + 1))]) ++
        [Face.mk (v n) c (v 0)]).filter fun f => f.IsProper := by
  have hpair (a b : UInt32) : (pairFaces a c b c).filter (fun f => f.IsProper) =
      [Face.mk a c b].filter fun f => f.IsProper := by
    simp [pairFaces, Face.IsProper, List.filter_cons]
  rw [runFaces_zigzag, List.filter_append, List.filter_append, List.filter_flatMap,
    List.filter_flatMap]
  simp only [hpair]
  rfl

theorem filter_map_face (hfits : g.Fits) (hr : 3 ≤ g.radial.toNat) {ps : List Pane}
    (hps : ∀ p ∈ ps, g.HasPane p) :
    (ps.map g.face).filter (fun f => f.IsProper) = ps.map g.face := by
  apply List.filter_eq_self.2
  intro f hf
  obtain ⟨p, hp, rfl⟩ := List.mem_map.1 hf
  exact decide_eq_true (isProper_face hfits hr (hps p hp))

/-- Triangles between the neighbours on a ring are those at the places of a cap. -/
theorem filter_fan (hfits : g.Fits) (hr : 3 ≤ g.radial.toNat) (pane : Nat → Pane)
    (hpane : ∀ j < g.radial.toNat, g.HasPane (pane j)) (f : Nat → Nat → Face)
    (hface : ∀ j, g.face (pane j) = f j (g.next j)) {n : Nat} (hn : g.radial.toNat = n + 1) :
    ((List.range n).flatMap (fun j => [f j (j + 1)]) ++ [f n 0]).filter (fun f => f.IsProper) =
      ((List.range g.radial.toNat).map pane).map g.face := by
  have hpanes : ∀ p ∈ (List.range g.radial.toNat).map pane, g.HasPane p := by
    intro p hp
    obtain ⟨j, hj, rfl⟩ := List.mem_map.1 hp
    exact hpane j (List.mem_range.1 hj)
  have hmap : ((List.range g.radial.toNat).map pane).map g.face =
      (List.range g.radial.toNat).flatMap fun j => [f j (g.next j)] := by
    rw [List.map_map, ← List.map_eq_flatMap]
    exact List.map_congr_left fun j _ => hface j
  rw [← filter_map_face hfits hr hpanes, hmap, flatMap_next (fun j k => [f j k]) hn]

theorem filter_runFaces_startSites (hfits : g.Fits) (hr : 3 ≤ g.radial.toNat)
    (hcaps : g.caps = true) :
    (runFaces false (g.startSites.map g.index)).filter (fun f => f.IsProper) =
      ((List.range g.radial.toNat).map .start).map g.face := by
  obtain ⟨n, hn⟩ := exists_radial_eq g
  have hfan := filter_fan hfits hr .start (fun j hj => ⟨hcaps, hj⟩)
    (fun j k => ⟨g.index .first, g.index (.rim 0 j), g.index (.rim 0 k)⟩) (fun _ => rfl) hn
  rw [← hfan, startSites, List.map_append, map_zigzag, hn]
  exact filter_runFaces_fan_left _ _ _

theorem filter_runFaces_stopSites (hfits : g.Fits) (hr : 3 ≤ g.radial.toNat)
    (hcaps : g.caps = true) :
    (runFaces false (g.stopSites.map g.index)).filter (fun f => f.IsProper) =
      ((List.range g.radial.toNat).map .stop).map g.face := by
  obtain ⟨n, hn⟩ := exists_radial_eq g
  have hfan := filter_fan hfits hr .stop (fun j hj => ⟨hcaps, hj⟩)
    (fun j k => ⟨g.index (.rim g.segments.toNat j), g.index .last,
      g.index (.rim g.segments.toNat k)⟩) (fun _ => rfl) hn
  rw [← hfan, stopSites, List.map_append, map_zigzag, hn]
  exact filter_runFaces_fan_right _ _ _

theorem filter_runFaces_sideSites (hfits : g.Fits) (hr : 3 ≤ g.radial.toNat)
    (hi : i < g.segments.toNat) :
    (runFaces false ((g.sideSites i).map g.index)).filter (fun f => f.IsProper) =
      (g.sidePanes i).map g.face := by
  have hpanes : ∀ p ∈ g.sidePanes i, g.HasPane p := by
    intro p hp
    obtain ⟨j, hj, rfl | rfl⟩ := mem_sidePanes.1 hp <;> exact ⟨hi, hj⟩
  rw [runFaces_sideSites, filter_map_face hfits hr hpanes]

/-- What the strips decode to, degenerate triangles left out. -/
theorem filter_stripFaces (hfits : g.Fits) (hr : 3 ≤ g.radial.toNat) :
    (stripFaces g.indices).toList.filter (fun f => f.IsProper) = g.panes.map g.face := by
  have hne : g.strips ≠ [] := by simpa [strips_eq] using siteStrips_ne_nil g
  have hsides : (List.range g.segments.toNat).flatMap (fun i =>
      (runFaces false ((g.sideSites i).map g.index)).filter fun f => f.IsProper) =
        ((List.range g.segments.toNat).flatMap g.sidePanes).map g.face := by
    rw [List.map_flatMap]
    apply List.flatMap_congr
    intro i hi
    exact filter_runFaces_sideSites hfits hr (List.mem_range.1 hi)
  rw [indices, stripFaces_intercalate hne fun _ => restartIndex_not_mem hfits, strips_eq,
    List.flatMap_map, List.filter_flatMap, siteStrips, List.flatMap_append, List.flatMap_map,
    hsides, panes, List.map_append]
  congr 1
  by_cases hcaps : g.caps
  · simp only [hcaps, if_true, List.flatMap_cons, List.flatMap_nil, List.append_nil,
      List.map_append]
    rw [filter_runFaces_startSites hfits hr hcaps, filter_runFaces_stopSites hfits hr hcaps]
  · simp [hcaps]

/-! ## Edges of words -/

theorem edgeCount_panes_pos (hfits : g.Fits) (he : g.Has e.1 ∧ g.Has e.2) :
    0 < edgeCount (g.panes.map g.face) (Prod.map g.index g.index e) ↔
      ∃ p, g.HasPane p ∧ e ∈ g.edges p := by
  rw [edgeCount_pos]
  constructor
  · rintro ⟨f, hf, hef⟩
    obtain ⟨p, hp, rfl⟩ := List.mem_map.1 hf
    have hp := mem_panes.1 hp
    exact ⟨p, hp, (index_pair_mem_edges_face hfits hp he).1 hef⟩
  · rintro ⟨p, hp, hep⟩
    exact ⟨g.face p, List.mem_map_of_mem (mem_panes.2 hp),
      (index_pair_mem_edges_face hfits hp he).2 hep⟩

/-- One triangle at most has a directed edge. -/
theorem edgeCount_panes (hfits : g.Fits) (hr : 3 ≤ g.radial.toNat) (hp : g.HasPane p)
    (he : e ∈ g.edges p) :
    edgeCount (g.panes.map g.face) (Prod.map g.index g.index e) = 1 := by
  have hsites := has_of_mem_edges hp he
  have hiff : ∀ q ∈ g.panes, Prod.map g.index g.index e ∈ (g.face q).edges ↔ q = p := by
    intro q hq
    have hq := mem_panes.1 hq
    rw [index_pair_mem_edges_face hfits hq hsites]
    constructor
    · intro h
      exact (left_eq hr hq h).symm.trans (left_eq hr hp he)
    · rintro rfl
      exact he
  calc edgeCount (g.panes.map g.face) (Prod.map g.index g.index e)
      = g.panes.countP (fun q => q == p) := by
        rw [edgeCount, List.countP_map]
        apply List.countP_congr
        intro q hq
        simpa using hiff q hq
    _ = 1 := List.count_eq_one_of_mem (nodup_panes g) (mem_panes.2 hp)

theorem edgeCount_panes_swap (hfits : g.Fits) (hr : 3 ≤ g.radial.toNat) (hp : g.HasPane p)
    (he : e.swap ∈ g.edges p) :
    edgeCount (g.panes.map g.face) (Prod.map g.index g.index e).swap = 1 :=
  edgeCount_panes hfits hr hp he

/-- Every edge of a triangle comes from places. -/
theorem exists_of_mem_edges_face {f : Face} (hf : f ∈ g.panes.map g.face)
    {e : UInt32 × UInt32} (he : e ∈ f.edges) :
    ∃ p e', g.HasPane p ∧ e' ∈ g.edges p ∧ Prod.map g.index g.index e' = e := by
  obtain ⟨p, hp, rfl⟩ := List.mem_map.1 hf
  rw [edges_face, List.mem_map] at he
  obtain ⟨e', he', rfl⟩ := he
  exact ⟨p, e', mem_panes.1 hp, he', rfl⟩

theorem edgeCount_panes_le (hfits : g.Fits) (hr : 3 ≤ g.radial.toNat) (e : UInt32 × UInt32) :
    edgeCount (g.panes.map g.face) e ≤ 1 := by
  obtain hzero | hpos := Nat.eq_zero_or_pos (edgeCount (g.panes.map g.face) e)
  · omega
  · obtain ⟨f, hf, hword⟩ := edgeCount_pos.1 hpos
    obtain ⟨p, e, hp, he, rfl⟩ := exists_of_mem_edges_face hf hword
    exact (edgeCount_panes hfits hr hp he).le

/-- Every vertex of a tube with caps is the beginning of an edge. -/
theorem exists_mem_edges_of_has (hcaps : g.caps = true) {site : Site} (h : g.Has site) :
    ∃ p e, g.HasPane p ∧ e ∈ g.edges p ∧ e.1 = site := by
  have hs := segments_pos (g := g)
  cases site with
  | rim i j =>
    obtain ⟨hi, hj⟩ := h
    obtain hi | rfl := Nat.lt_or_eq_of_le hi
    · exact ⟨.lower i j, _, ⟨hi, hj⟩, mem_edges_lower.2 (.inl rfl), rfl⟩
    · refine ⟨.upper (g.segments.toNat - 1) j, _, ⟨by omega, hj⟩,
        mem_edges_upper.2 (.inr (.inl rfl)), ?_⟩
      rw [Nat.sub_add_cancel hs]
  | first => exact ⟨.start 0, _, ⟨hcaps, radial_pos⟩, mem_edges_start.2 (.inl rfl), rfl⟩
  | last => exact ⟨.stop 0, _, ⟨hcaps, radial_pos⟩, mem_edges_stop.2 (.inr (.inl rfl)), rfl⟩

theorem isClosedSurface_panes (hfits : g.Fits) (hr : 3 ≤ g.radial.toNat) (hcaps : g.caps = true) :
    IsClosedSurface (g.panes.map g.face) g.size where
  proper := by
    intro f hf
    obtain ⟨p, hp, rfl⟩ := List.mem_map.1 hf
    exact isProper_face hfits hr (mem_panes.1 hp)
  edge := by
    intro f hf _ hword
    obtain ⟨p, e, hp, he, rfl⟩ := exists_of_mem_edges_face hf hword
    refine ⟨edgeCount_panes hfits hr hp he, ?_⟩
    obtain ⟨q, hq, hswap⟩ | ⟨hopen, -⟩ := swap_mem_edges hp he
    · exact edgeCount_panes_swap hfits hr hq hswap
    · rw [hcaps] at hopen
      cases hopen
  vertex := by
    intro v
    constructor
    · intro hv
      obtain ⟨site, hsite, hnumber⟩ := exists_number_eq hv
      have hindex : g.index site = v := by
        rw [← UInt32.toNat_inj, toNat_index hfits hsite, hnumber]
      obtain ⟨p, e, hp, he, rfl⟩ := exists_mem_edges_of_has hcaps hsite
      refine ⟨g.face p, List.mem_map_of_mem (mem_panes.2 hp), Face.mem_corners.2 ?_⟩
      exact ⟨_, (index_pair_mem_edges_face hfits hp (has_of_mem_edges hp he)).2 he, hindex⟩
    · rintro ⟨f, hf, hv⟩
      obtain ⟨_, hword, rfl⟩ := Face.mem_corners.1 hv
      obtain ⟨p, e, hp, he, rfl⟩ := exists_of_mem_edges_face hf hword
      have hsite := (has_of_mem_edges hp he).1
      rw [Prod.map_fst, toNat_index hfits hsite]
      exact number_lt_size hsite

/-- Without caps, the border edges are the open ones. -/
theorem isOpenEdge_panes (hfits : g.Fits) (hr : 3 ≤ g.radial.toNat) (hcaps : g.caps = false)
    {e : UInt32 × UInt32} :
    IsOpenEdge (g.panes.map g.face) e ↔
      ∃ e', g.IsBorder e' ∧ Prod.map g.index g.index e' = e := by
  constructor
  · rintro ⟨hpos, hzero⟩
    obtain ⟨f, hf, hword⟩ := edgeCount_pos.1 hpos
    obtain ⟨p, e, hp, he, rfl⟩ := exists_of_mem_edges_face hf hword
    obtain ⟨q, hq, hswap⟩ | ⟨-, hborder⟩ := swap_mem_edges hp he
    · exact absurd hzero (by rw [edgeCount_panes_swap hfits hr hq hswap]; decide)
    · exact ⟨e, hborder, rfl⟩
  · rintro ⟨e, hborder, rfl⟩
    obtain ⟨p, hp, he⟩ := exists_mem_edges_of_isBorder hborder
    have hsites := has_of_mem_edges hp he
    refine ⟨(edgeCount_panes_pos hfits hsites).2 ⟨p, hp, he⟩, ?_⟩
    by_contra hne
    obtain ⟨q, hq, hswap⟩ :=
      (edgeCount_panes_pos (e := e.swap) hfits hsites.symm).1 (Nat.pos_of_ne_zero hne)
    exact swap_not_mem_edges_of_isBorder hr hcaps hborder hq hswap

/-- The border edges by numbers. -/
theorem exists_isBorder_iff (hfits : g.Fits) {e : UInt32 × UInt32} :
    (∃ e', g.IsBorder e' ∧ Prod.map g.index g.index e' = e) ↔ ∃ j < g.radial.toNat,
      e.1.toNat = (j + 1) % g.radial.toNat ∧ e.2.toNat = j ∨
        e.1.toNat = g.segments.toNat * g.radial.toNat + j ∧
          e.2.toNat = g.segments.toNat * g.radial.toNat + (j + 1) % g.radial.toNat := by
  have hindex {i j : Nat} (hi : i ≤ g.segments.toNat) (hj : j < g.radial.toNat) :
      (g.index (.rim i j)).toNat = i * g.radial.toNat + j := toNat_index hfits ⟨hi, hj⟩
  have hfirst {j : Nat} (hj : j < g.radial.toNat) : (g.index (.rim 0 j)).toNat = j := by
    rw [hindex (Nat.zero_le _) hj, Nat.zero_mul, Nat.zero_add]
  have hlast {j : Nat} (hj : j < g.radial.toNat) := hindex le_rfl hj
  constructor
  · rintro ⟨e, ⟨j, hj, rfl | rfl⟩, rfl⟩
    · exact ⟨j, hj, .inl ⟨by rw [← next_eq_mod hj]; exact hfirst (next_lt hj), hfirst hj⟩⟩
    · exact ⟨j, hj, .inr ⟨hlast hj, by rw [← next_eq_mod hj]; exact hlast (next_lt hj)⟩⟩
  · rintro ⟨j, hj, ⟨h₁, h₂⟩ | ⟨h₁, h₂⟩⟩
    · rw [← next_eq_mod hj, ← hfirst (next_lt hj)] at h₁
      rw [← hfirst hj] at h₂
      exact ⟨_, ⟨j, hj, .inl rfl⟩,
        Prod.ext (UInt32.toNat_inj.1 h₁.symm) (UInt32.toNat_inj.1 h₂.symm)⟩
    · rw [← hlast hj] at h₁
      rw [← next_eq_mod hj, ← hlast (next_lt hj)] at h₂
      exact ⟨_, ⟨j, hj, .inr rfl⟩,
        Prod.ext (UInt32.toNat_inj.1 h₁.symm) (UInt32.toNat_inj.1 h₂.symm)⟩

end TubeGrid

namespace Tube

variable {α : Type} [Scalar α] {t : Tube α} {m : Mesh α}

theorem properFaces_eq (hr : 3 ≤ t.grid.radial) (hm : t.mesh = .ok m) :
    m.properFaces = t.grid.panes.map t.grid.face := by
  obtain ⟨-, -, hfits, positions, -, rfl⟩ := mesh_eq_ok.1 hm
  exact TubeGrid.filter_stripFaces hfits (UInt32.le_iff_toNat_le.1 hr)

theorem mem_faces_and_isProper_iff (hr : 3 ≤ t.grid.radial) (hm : t.mesh = .ok m) {f : Face} :
    f ∈ m.faces ∧ f.IsProper ↔ ∃ p, t.grid.HasPane p ∧ t.grid.face p = f := by
  have hmem : f ∈ m.properFaces ↔ f ∈ m.faces ∧ f.IsProper := by simp [Mesh.properFaces]
  simp only [← hmem, properFaces_eq hr hm, List.mem_map, TubeGrid.mem_panes]

/-- A mesh of a tube with caps is a closed surface that is wound the same way round everywhere, with
two more vertices and triangles than edges. Without caps, its only open edges are those of the first
ring and, the other way round, those of the last. -/
theorem mesh_surface (hr : 3 ≤ t.grid.radial) (hm : t.mesh = .ok m) :
    (t.grid.caps = true →
      m.vertexCount = (t.grid.segments.toNat + 1) * t.grid.radial.toNat + 2 ∧
      m.properFaces.length = 2 * t.grid.radial.toNat * (t.grid.segments.toNat + 1) ∧
      IsClosedSurface m.properFaces m.vertexCount ∧
      m.vertexCount + m.properFaces.length = (undirectedEdges m.properFaces).card + 2) ∧
    (t.grid.caps = false →
      m.properFaces.length = 2 * t.grid.radial.toNat * t.grid.segments.toNat ∧
      (∀ f ∈ m.properFaces, ∀ e ∈ f.edges,
        edgeCount m.properFaces e = 1 ∧ edgeCount m.properFaces e.swap ≤ 1) ∧
      ∀ u v : UInt32, IsOpenEdge m.properFaces (u, v) ↔ ∃ j < t.grid.radial.toNat,
        u.toNat = (j + 1) % t.grid.radial.toNat ∧ v.toNat = j ∨
          u.toNat = t.grid.segments.toNat * t.grid.radial.toNat + j ∧
            v.toNat = t.grid.segments.toNat * t.grid.radial.toNat
              + (j + 1) % t.grid.radial.toNat) := by
  have hr' := UInt32.le_iff_toNat_le.1 hr
  rw [properFaces_eq hr hm]
  obtain ⟨-, -, hfits, positions, hpositions, rfl⟩ := mesh_eq_ok.1 hm
  rw [Mesh.vertexCount_ofShape, size_positions hpositions, List.length_map, TubeGrid.length_panes]
  constructor <;> intro hcaps
  · have hclosed := TubeGrid.isClosedSurface_panes hfits hr' hcaps
    have hedges := hclosed.two_mul_card_undirectedEdges
    have hfaces : 2 * t.grid.radial.toNat * t.grid.segments.toNat + 2 * t.grid.radial.toNat =
        2 * t.grid.radial.toNat * (t.grid.segments.toNat + 1) := by ring
    have hprod : 2 * t.grid.radial.toNat * (t.grid.segments.toNat + 1) =
        2 * ((t.grid.segments.toNat + 1) * t.grid.radial.toNat) := by ring
    have hsize : t.grid.size = (t.grid.segments.toNat + 1) * t.grid.radial.toNat + 2 := by
      rw [TubeGrid.size, if_pos hcaps]
    rw [List.length_map, TubeGrid.length_panes] at hedges
    rw [if_pos hcaps, hfaces] at hedges ⊢
    refine ⟨hsize, rfl, hclosed, ?_⟩
    rw [hsize]
    omega
  · refine ⟨by simp [hcaps], ?_, ?_⟩
    · intro f hf _ hword
      obtain ⟨p, e, hp, he, rfl⟩ := TubeGrid.exists_of_mem_edges_face hf hword
      exact ⟨TubeGrid.edgeCount_panes hfits hr' hp he, TubeGrid.edgeCount_panes_le hfits hr' _⟩
    · intro u v
      rw [TubeGrid.isOpenEdge_panes hfits hr' hcaps, TubeGrid.exists_isBorder_iff hfits]

/-- A prism over a triangle, with a straight axis of length one. -/
noncomputable def prism (caps : Bool) : Tube ℝ where
  curve := (Spline.segment 0 .yAxis).curve
  grid := ⟨1, 3, caps, by decide, by decide⟩
  radiusBegin := 1
  radiusEnd := 1
  color := .bark

theorem exists_mesh_prism (caps : Bool) : ∃ m, (prism caps).mesh = .ok m := by
  have hfits : (prism caps).grid.Fits := by cases caps <;> decide
  exact exists_mesh rfl (keepsMoving_segment 0 .yAxis (by norm_num)) zero_le_one
    zero_le_one hfits

theorem prism_surface : ∃ closed tunnel, 3 ≤ (3 : UInt32) ∧
    (prism true).mesh = .ok closed ∧ closed.properFaces.length = 12 ∧
    IsClosedSurface closed.properFaces 8 ∧
    (prism false).mesh = .ok tunnel ∧ tunnel.properFaces.length = 6 ∧
    IsOpenEdge tunnel.properFaces (1, 0) := by
  obtain ⟨closed, hclosed⟩ := exists_mesh_prism true
  obtain ⟨tunnel, htunnel⟩ := exists_mesh_prism false
  have hradial : (3 : UInt32) ≤ 3 := by decide
  obtain ⟨hvertices, hfaces, hsurface, -⟩ := (mesh_surface hradial hclosed).1 rfl
  obtain ⟨hfaces', -, hopen⟩ := (mesh_surface hradial htunnel).2 rfl
  rw [hvertices] at hsurface
  exact ⟨closed, tunnel, hradial, hclosed, hfaces, hsurface, htunnel, hfaces',
    (hopen 1 0).2 ⟨0, by decide, .inl ⟨rfl, rfl⟩⟩⟩

end Tube

end ProceduralTree
