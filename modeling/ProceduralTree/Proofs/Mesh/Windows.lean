import ProceduralTree.Proofs.Mesh.Runs
import ProceduralTree.Proofs.Mesh.Surface

/-!
# Triangles of strips

A run of a strip buffer has one triangle for any three entries in a row. Which entries its triangle
`k` has for its corners, and in which order, depends on `k` alone; with the parity of `k` the first
two change places. So two triangles next to each other run through the edge between them in opposite
directions, wherever in its buffer a run begins.

## Main definitions

* `Mesh.runs` — what the restarts of an index buffer leave between them.
* `stripCorners`, `stripEdges` — the corners and edges of the triangles of a run, by places.
* `IsStripOf` — the triangles of a run.

## Main statements

* `getElem?_runFaces` — the triangles of a run one by one.
* `swap_mem_stripEdges_succ` — the edge that two triangles share.
* `Mesh.faces_runs` — the triangles of a mesh of strips.
-/

namespace ProceduralTree

/-! ## Places in a run -/

/-- The places of three entries in a row, of which the first two may be exchanged. -/
def windowCorners (exchange : Bool) (k : Nat) : Nat × Nat × Nat :=
  if exchange then (k + 1, k, k + 2) else (k, k + 1, k + 2)

/-- The places of the corners of triangle `k` of a run, in the order of its winding. -/
def stripCorners (k : Nat) : Nat × Nat × Nat := windowCorners (k % 2 = 1) k

/-- The directed edges of triangle `k` of a run along its winding, by the places of their ends. -/
def stripEdges (k : Nat) : List (Nat × Nat) :=
  let (a, b, c) := stripCorners k
  [(a, b), (b, c), (c, a)]

/-- The triangle between the entries at three places of a run. -/
def faceAt? (run : List UInt32) (places : Nat × Nat × Nat) : Option Face := do
  let a ← run[places.1]?
  let b ← run[places.2.1]?
  let c ← run[places.2.2]?
  return ⟨a, b, c⟩

theorem stripCorners_of_even {k : Nat} (h : k % 2 = 0) : stripCorners k = (k, k + 1, k + 2) := by
  simp [stripCorners, windowCorners, h]

theorem stripCorners_of_odd {k : Nat} (h : k % 2 = 1) : stripCorners k = (k + 1, k, k + 2) := by
  simp [stripCorners, windowCorners, h]

/-- Triangles `k` and `k + 1` run through the edge between their two common entries in opposite
directions, and neither of them runs through it both ways. -/
theorem swap_mem_stripEdges_succ (k : Nat) {e : Nat × Nat}
    (he : e = (k + 1, k + 2) ∨ e = (k + 2, k + 1)) :
    (e ∈ stripEdges k ↔ e.swap ∈ stripEdges (k + 1)) ∧
      (e ∈ stripEdges k ↔ e.swap ∉ stripEdges k) := by
  obtain hk | hk := Nat.mod_two_eq_zero_or_one k
  · have hnext : (k + 1) % 2 = 1 := by omega
    simp only [stripEdges, stripCorners_of_even hk, stripCorners_of_odd hnext]
    rcases he with rfl | rfl <;> simp
  · have hnext : (k + 1) % 2 = 0 := by omega
    simp only [stripEdges, stripCorners_of_odd hk, stripCorners_of_even hnext]
    rcases he with rfl | rfl <;> simp

theorem faceAt?_windowCorners_cons (a : UInt32) (run : List UInt32) (exchange : Bool) (k : Nat) :
    faceAt? (a :: run) (windowCorners exchange (k + 1)) =
      faceAt? run (windowCorners exchange k) := by
  cases exchange <;> simp [faceAt?, windowCorners]

theorem faceAt?_windowCorners_of_length_le {run : List UInt32} {k : Nat}
    (h : run.length ≤ k + 2) (exchange : Bool) :
    faceAt? run (windowCorners exchange k) = none := by
  have hlast : run[k + 2]? = none := List.getElem?_eq_none h
  cases exchange <;> simp [faceAt?, windowCorners, hlast]

/-! ## Triangles of a run -/

theorem length_runFaces (exchange : Bool) (run : List UInt32) :
    (runFaces exchange run).length = run.length - 2 := by
  induction run generalizing exchange with
  | nil => rfl
  | cons a run ih =>
    obtain _ | ⟨b, _ | ⟨c, rest⟩⟩ := run
    · rfl
    · rfl
    · simp [runFaces, ih]

/-- Triangle `k` of a run that begins with or without an exchange. -/
theorem getElem?_runFaces (exchange : Bool) (run : List UInt32) (k : Nat) :
    (runFaces exchange run)[k]? = faceAt? run (windowCorners (exchange ^^ (k % 2 = 1)) k) := by
  induction run generalizing exchange k with
  | nil => rw [faceAt?_windowCorners_of_length_le (by simp), runFaces, List.getElem?_nil]; simp
  | cons a run ih =>
    obtain _ | ⟨b, _ | ⟨c, rest⟩⟩ := run
    · rw [faceAt?_windowCorners_of_length_le (by simp)]
      rfl
    · rw [faceAt?_windowCorners_of_length_le (by simp)]
      rfl
    · cases k with
      | zero => cases exchange <;> simp [runFaces, faceAt?, windowCorners]
      | succ k =>
        have hparity : (!exchange ^^ decide (k % 2 = 1)) =
            (exchange ^^ decide ((k + 1) % 2 = 1)) := by
          rcases Nat.mod_two_eq_zero_or_one k with h | h <;> simp [h, Nat.add_mod]
        rw [faceAt?_windowCorners_cons, ← hparity, ← ih]
        rfl

/-- What lies between separators comes from the list and is no separator. -/
theorem mem_and_ne_of_mem_splitOn {sep : UInt32} {xs run : List UInt32}
    (hrun : run ∈ xs.splitOn sep) {i : UInt32} (hi : i ∈ run) : i ∈ xs ∧ i ≠ sep := by
  induction xs generalizing run with
  | nil => simp_all
  | cons x xs ih =>
    obtain ⟨first, others, hsplit⟩ := List.exists_cons_of_ne_nil (List.splitOn_ne_nil sep xs)
    rw [List.splitOn_cons_eq_if_modifyHead, hsplit, List.modifyHead_cons] at hrun
    rw [hsplit] at ih
    have hfirst (h : i ∈ first) : i ∈ xs ∧ i ≠ sep := ih List.mem_cons_self h
    grind

theorem mem_of_mem_runFaces {exchange : Bool} {run : List UInt32} {f : Face}
    (hf : f ∈ runFaces exchange run) {i : UInt32} (hi : i ∈ f.corners) : i ∈ run := by
  induction run generalizing exchange with
  | nil => simp [runFaces] at hf
  | cons a run ih =>
    obtain _ | ⟨b, _ | ⟨c, rest⟩⟩ := run
    · simp [runFaces] at hf
    · simp [runFaces] at hf
    · obtain rfl | hf := List.mem_cons.1 hf
      · cases exchange <;> simp [Face.corners] at hi ⊢ <;> tauto
      · exact List.mem_cons_of_mem a (ih hf)

/-- The triangles of a run: two less than it has entries, each between three entries in a row. -/
structure IsStripOf (run : List UInt32) (faces : List Face) : Prop where
  length_eq : faces.length = run.length - 2
  /-- Triangle `k` has corners at its places. -/
  face : ∀ k, faces[k]? = faceAt? run (stripCorners k)

theorem isStripOf_runFaces (run : List UInt32) : IsStripOf run (runFaces false run) where
  length_eq := length_runFaces false run
  face k := by rw [getElem?_runFaces, Bool.false_xor, stripCorners]

/-! ## Triangles of a mesh -/

namespace Mesh

variable {α : Type} {m : Mesh α}

/-- What the restarts of the index buffer leave between them, in order. -/
def runs (m : Mesh α) : List (List UInt32) := m.indices.toList.splitOn restartIndex

theorem restartIndex_not_mem_of_mem_runs {run : List UInt32} (h : run ∈ m.runs) :
    restartIndex ∉ run :=
  fun hrestart => (mem_and_ne_of_mem_splitOn h hrestart).2 rfl

theorem faces_toList (hstrip : m.topology = .triangleStrip) :
    m.faces.toList = (m.runs.map (runFaces false)).flatten := by
  rw [faces, hstrip, ← List.flatMap_def]
  exact stripFaces_toList m.indices

theorem restartIndex_not_mem_corners (hstrip : m.topology = .triangleStrip) {f : Face}
    (hf : f ∈ m.faces) : restartIndex ∉ f.corners := by
  rw [← Array.mem_toList_iff, faces_toList hstrip, ← List.flatMap_def, List.mem_flatMap] at hf
  obtain ⟨run, hrun, hf⟩ := hf
  exact fun hrestart => restartIndex_not_mem_of_mem_runs hrun (mem_of_mem_runFaces hf hrestart)

/-- The triangles of a mesh of strips are those of its runs in order, and none has a restart for a
corner. A run without restarts has a triangle for any three entries in a row, whose last corner is
the last of these. Any two triangles next to each other run through the edge between their two
common entries in opposite directions, whatever comes before their run. -/
theorem faces_runs (hstrip : m.topology = .triangleStrip) :
    ([restartIndex].intercalate m.runs = m.indices.toList ∧
      ∀ run ∈ m.runs, restartIndex ∉ run) ∧
    (∃ strips, m.faces.toList = strips.flatten ∧ List.Forall₂ IsStripOf m.runs strips) ∧
    (∀ f ∈ m.faces, restartIndex ∉ f.corners) ∧
    ∀ k, (stripCorners k = (k, k + 1, k + 2) ∨ stripCorners k = (k + 1, k, k + 2)) ∧
      ∀ e, e = (k + 1, k + 2) ∨ e = (k + 2, k + 1) →
        (e ∈ stripEdges k ↔ e.swap ∈ stripEdges (k + 1)) ∧
          (e ∈ stripEdges k ↔ e.swap ∉ stripEdges k) := by
  refine ⟨⟨List.intercalate_splitOn _, fun run => restartIndex_not_mem_of_mem_runs⟩,
    ⟨_, faces_toList hstrip, ?_⟩, fun f => restartIndex_not_mem_corners hstrip, ?_⟩
  · exact List.forall₂_map_right_iff.2 (List.forall₂_same.2 fun run _ => isStripOf_runFaces run)
  · intro k
    refine ⟨?_, fun e => swap_mem_stripEdges_succ k⟩
    obtain hk | hk := Nat.mod_two_eq_zero_or_one k
    · exact .inl (stripCorners_of_even hk)
    · exact .inr (stripCorners_of_odd hk)

/-- Strips of two triangles and of one, with restarts before, between and behind them. -/
theorem faces_runs_restarts :
    let m : Mesh Float := ⟨.triangleStrip, #[], #[], #[],
      #[restartIndex, 0, 1, 2, 3, restartIndex, restartIndex, 4, 5, 6, restartIndex]⟩
    m.topology = .triangleStrip ∧ m.runs = [[], [0, 1, 2, 3], [], [4, 5, 6], []] ∧
      (∃ strips, m.faces.toList = strips.flatten ∧ List.Forall₂ IsStripOf m.runs strips) ∧
      m.faces = #[⟨0, 1, 2⟩, ⟨2, 1, 3⟩, ⟨4, 5, 6⟩] := by
  intro m
  exact ⟨rfl, by decide, (faces_runs (m := m) rfl).2.1, by decide⟩

end Mesh

end ProceduralTree
