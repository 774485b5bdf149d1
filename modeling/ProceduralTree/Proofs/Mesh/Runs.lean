import Mathlib.Algebra.GroupWithZero.Nat
import Mathlib.Data.List.Chain
import ProceduralTree.Mesh.Faces

/-!
# Runs of a strip buffer

The restart index cuts a strip buffer into runs. `stripFaces` reads the buffer in one pass; here it
is shown to read run by run, so that what holds of a run holds of every buffer.

## Main definitions

* `runFaces` — the triangles of a run.
* `zigzag` — a run between two rows of vertices.
* `RestartsSeparate` — every restart stands between two other indices.

## Main statements

* `stripFaces_toList` — the triangles of a buffer are those of its runs in order.
* `stripFaces_intercalate` — strips with restarts between them decode strip by strip.
-/

namespace ProceduralTree

/-- The triangles of a run without restarts: one for any three indices in a row, of which every
second exchanges its first two corners. -/
def runFaces (exchange : Bool) : List UInt32 → List Face
  | a :: b :: c :: rest =>
    (if exchange then ⟨b, a, c⟩ else ⟨a, b, c⟩) :: runFaces (!exchange) (b :: c :: rest)
  | _ => []

namespace RunTail

/-- The triangles that the indices of a run complete when they are read behind `tail`. -/
def faces : RunTail → List UInt32 → List Face
  | empty, run => runFaces false run
  | one b, run => runFaces false (b :: run)
  | two a b exchange, run => runFaces exchange (a :: b :: run)

@[simp] theorem faces_nil (tail : RunTail) : tail.faces [] = [] := by
  cases tail <;> simp [faces, runFaces]

theorem read_restart (tail : RunTail) : tail.read restartIndex = (empty, none) := by
  simp [read]

/-- Reading an index moves it from the run into the tail. -/
theorem faces_read (tail : RunTail) {i : UInt32} (h : i ≠ restartIndex) (run : List UInt32) :
    (tail.read i).2.toList ++ (tail.read i).1.faces run = tail.faces (i :: run) := by
  cases tail <;> simp [read, faces, runFaces, h]

end RunTail

theorem stripStep_eq (tail : RunTail) (done : Array Face) (i : UInt32) :
    stripStep (tail, done) i = ((tail.read i).1, done ++ (tail.read i).2.toList.toArray) := by
  unfold stripStep
  split <;> rename_i h <;> simp [h]

/-- What a pass over a buffer adds: the first run ends the one that `tail` is the end of, and every
other run starts anew. -/
theorem foldl_stripStep (indices : List UInt32) (tail : RunTail) (done : Array Face)
    {run : List UInt32} {runs : List (List UInt32)}
    (h : indices.splitOn restartIndex = run :: runs) :
    (indices.foldl stripStep (tail, done)).2.toList =
      done.toList ++ (tail.faces run ++ runs.flatMap (runFaces false)) := by
  induction indices generalizing tail done run runs with
  | nil =>
    obtain ⟨rfl, rfl⟩ : [] = run ∧ [] = runs := by simpa using h
    simp
  | cons i rest ih =>
    obtain ⟨next, others, hrest⟩ :=
      List.exists_cons_of_ne_nil (List.splitOn_ne_nil restartIndex rest)
    rw [List.foldl_cons, stripStep_eq, ih _ _ hrest]
    rw [List.splitOn_cons_eq_if_modifyHead, hrest] at h
    by_cases hi : i = restartIndex
    · obtain ⟨rfl, rfl⟩ : [] = run ∧ next :: others = runs := by simpa [hi] using h
      rw [hi, RunTail.read_restart, RunTail.faces_nil]
      simp [RunTail.faces]
    · obtain ⟨rfl, rfl⟩ : i :: next = run ∧ others = runs := by simpa [hi] using h
      simp [← RunTail.faces_read tail hi]

/-- A strip buffer is read run by run. -/
theorem stripFaces_toList (indices : Array UInt32) :
    (stripFaces indices).toList =
      (indices.toList.splitOn restartIndex).flatMap (runFaces false) := by
  obtain ⟨run, runs, h⟩ :=
    List.exists_cons_of_ne_nil (List.splitOn_ne_nil restartIndex indices.toList)
  rw [stripFaces, ← Array.foldl_toList, foldl_stripStep _ _ _ h, h]
  simp [RunTail.faces]

example : stripFaces #[0, 1, 2, 3, restartIndex, 4, 5, 6] =
    #[⟨0, 1, 2⟩, ⟨2, 1, 3⟩, ⟨4, 5, 6⟩] := by decide

theorem stripFaces_intercalate {strips : List (List UInt32)} (hne : strips ≠ [])
    (h : ∀ strip ∈ strips, restartIndex ∉ strip) :
    (stripFaces ([restartIndex].intercalate strips).toArray).toList =
      strips.flatMap (runFaces false) := by
  rw [stripFaces_toList, List.splitOn_intercalate _ h hne]

/-! ## Runs between two rows -/

/-- The run that goes to and fro between two rows of `n` vertices each. -/
def zigzag {β : Type} (p q : Nat → β) (n : Nat) : List β :=
  (List.range n).flatMap fun j => [p j, q j]

section Zigzag

variable {β γ : Type} (p q : Nat → β) (n : Nat)

@[simp] theorem length_zigzag : (zigzag p q n).length = 2 * n := by
  simp [zigzag, List.length_flatMap, List.map_const', Nat.mul_comm]

theorem mem_zigzag {p q : Nat → β} {n : Nat} {v : β} :
    v ∈ zigzag p q n ↔ ∃ j < n, v = p j ∨ v = q j := by
  simp [zigzag]

theorem map_zigzag (f : β → γ) :
    (zigzag p q n).map f = zigzag (fun j => f (p j)) (fun j => f (q j)) n := by
  simp [zigzag, List.map_flatMap]

theorem zigzag_succ :
    zigzag p q (n + 1) = p 0 :: q 0 :: zigzag (fun j => p (j + 1)) (fun j => q (j + 1)) n := by
  simp [zigzag, List.range_succ_eq_map, List.flatMap_map]

end Zigzag

/-- The two triangles between a pair of vertices of two rows and the next pair. -/
def pairFaces (a b c d : UInt32) : List Face := [⟨a, b, c⟩, ⟨c, b, d⟩]

/-- A run between two rows has two triangles for every pair of vertices but the last; they do not
depend on what follows. -/
theorem runFaces_zigzag (p q : Nat → UInt32) (n : Nat) (rest : List UInt32) :
    runFaces false (zigzag p q (n + 1) ++ rest) =
      (List.range n).flatMap (fun j => pairFaces (p j) (q j) (p (j + 1)) (q (j + 1)))
        ++ runFaces false (p n :: q n :: rest) := by
  induction n generalizing p q with
  | zero => simp [zigzag]
  | succ n ih =>
    rw [zigzag_succ, List.cons_append, List.cons_append, zigzag_succ]
    simp only [List.cons_append, runFaces]
    have := ih (fun j => p (j + 1)) (fun j => q (j + 1))
    rw [zigzag_succ, List.cons_append, List.cons_append] at this
    rw [Bool.not_false, Bool.not_true, this, List.range_succ_eq_map, List.flatMap_cons,
      List.flatMap_map]
    simp [pairFaces]

/-! ## Restarts between strips -/

/-- No restart comes first, last or right behind another. -/
structure RestartsSeparate (indices : List UInt32) : Prop where
  not_leading : indices.head? ≠ some restartIndex
  not_trailing : indices.getLast? ≠ some restartIndex
  not_doubled : indices.IsChain fun i j => ¬(i = restartIndex ∧ j = restartIndex)

section Strips

variable {strips : List (List UInt32)}

theorem mem_intercalate_restart {i : UInt32} (hi : i ∈ [restartIndex].intercalate strips) :
    i = restartIndex ∨ ∃ strip ∈ strips, i ∈ strip := by
  induction strips with
  | nil => simp at hi
  | cons strip rest ih =>
    cases rest with
    | nil => exact .inr ⟨strip, by simp, by simpa using hi⟩
    | cons next rest =>
      rw [List.intercalate_cons_cons, List.mem_append, List.mem_append, List.mem_singleton] at hi
      rcases hi with (hi | hi) | hi
      · exact .inr ⟨strip, by simp, hi⟩
      · exact .inl hi
      · obtain h | ⟨s, hs, h⟩ := ih hi
        · exact .inl h
        · exact .inr ⟨s, List.mem_cons_of_mem _ hs, h⟩

/-- There is one restart less than there are strips. -/
theorem count_intercalate_restart (h : ∀ strip ∈ strips, restartIndex ∉ strip) :
    ([restartIndex].intercalate strips).count restartIndex = strips.length - 1 := by
  induction strips with
  | nil => simp
  | cons strip rest ih =>
    have hstrip : strip.count restartIndex = 0 := List.count_eq_zero.2 (h strip (by simp))
    cases rest with
    | nil => simpa using hstrip
    | cons next rest =>
      have := ih fun s hs => h s (List.mem_cons_of_mem _ hs)
      rw [List.intercalate_cons_cons, List.count_append, List.count_append, this, hstrip]
      simp
      omega

/-- The other indices are those of the strips. -/
theorem countP_ne_intercalate_restart (h : ∀ strip ∈ strips, restartIndex ∉ strip) :
    ([restartIndex].intercalate strips).countP (· ≠ restartIndex) =
      (strips.map List.length).sum := by
  induction strips with
  | nil => simp
  | cons strip rest ih =>
    have hstrip : strip.countP (· ≠ restartIndex) = strip.length :=
      List.countP_eq_length.2 fun i hi => decide_eq_true fun e => h strip (by simp) (e ▸ hi)
    cases rest with
    | nil => simpa using hstrip
    | cons next rest =>
      have := ih fun s hs => h s (List.mem_cons_of_mem _ hs)
      rw [List.intercalate_cons_cons, List.countP_append, List.countP_append, this, hstrip]
      simp

theorem head?_intercalate_restart {strip : List UInt32} (hne : strip ≠ []) :
    ([restartIndex].intercalate (strip :: strips)).head? = strip.head? := by
  cases strips with
  | nil => simp
  | cons next rest =>
    obtain ⟨i, tail, rfl⟩ := List.exists_cons_of_ne_nil hne
    simp

theorem restartsSeparate_intercalate (hstrips : strips ≠ [])
    (h : ∀ strip ∈ strips, strip ≠ [] ∧ restartIndex ∉ strip) :
    RestartsSeparate ([restartIndex].intercalate strips) := by
  induction strips with
  | nil => exact absurd rfl hstrips
  | cons strip rest ih =>
    obtain ⟨hne, hstrip⟩ := h strip (by simp)
    have hhead : strip.head? ≠ some restartIndex := fun e => hstrip (List.mem_of_head? e)
    have hchain : strip.IsChain fun i j => ¬(i = restartIndex ∧ j = restartIndex) := by
      refine List.Pairwise.isChain (List.pairwise_of_forall_mem_list ?_)
      rintro i hi j - ⟨rfl, -⟩
      exact hstrip hi
    cases rest with
    | nil =>
      refine ⟨by simpa using hhead, ?_, by simpa using hchain⟩
      simpa using fun e => hstrip (List.mem_of_getLast? e)
    | cons next rest =>
      have hrest := ih (List.cons_ne_nil _ _) fun s hs => h s (List.mem_cons_of_mem _ hs)
      have hlast : ([restartIndex].intercalate (next :: rest)) ≠ [] := by
        intro e
        have hnext : ([restartIndex].intercalate (next :: rest)).head? = next.head? :=
          head?_intercalate_restart (h next (by simp)).1
        rw [e] at hnext
        exact (h next (by simp)).1 (by simpa using hnext.symm)
      refine ⟨?_, ?_, ?_⟩
      · rw [head?_intercalate_restart hne]
        exact hhead
      · rw [List.intercalate_cons_cons, List.getLast?_append_of_ne_nil _ hlast]
        exact hrest.not_trailing
      · rw [List.intercalate_cons_cons, List.append_assoc, List.isChain_append]
        refine ⟨hchain, ?_, ?_⟩
        · rw [List.singleton_append, List.isChain_cons]
          exact ⟨fun i hi e => hrest.not_leading (e.2 ▸ hi), hrest.not_doubled⟩
        · rintro i hi j - ⟨rfl, -⟩
          exact hstrip (List.mem_of_getLast? hi)

end Strips

end ProceduralTree
