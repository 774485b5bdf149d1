import ProceduralTree.Proofs.Grammar.Brackets
import ProceduralTree.Proofs.Skeleton.Descent

/-!
# Readings

While a sentence is read, the branches that are open form a stack. Every symbol takes one such stack
to the next, except for a closing bracket that finds nothing to close. What a sentence does to a
stack depends on no more of it than the sentence closes.

## Main definitions

* `Symbol.HasMeaning`, `Sentence.Readable` — the characters that a turtle understands, and the
  sentences of such characters.
* `Reading` — the open branches.
* `Reading.step?`, `Reading.after?` — the reading behind a symbol, and behind a sentence.

## Main statements

* `Reading.read_append` — interpretation goes on from the reading behind a part of the sentence.
* `Reading.map_depth_after?` — a reading is as deep as the brackets that are open.
* `Reading.after?_inside` — the branches around a reading stay as they are.
-/

namespace ProceduralTree

namespace Symbol

/-- The letters, and the marks for turns and forks. -/
def HasMeaning (c : Char) : Prop := ('A' ≤ c ∧ c ≤ 'Z') ∨ c ∈ marks.map Prod.fst

instance (c : Char) : Decidable (HasMeaning c) := inferInstanceAs (Decidable (_ ∨ _))

theorem isSome_ofChar?_iff {c : Char} : (ofChar? c).isSome ↔ HasMeaning c := by
  rw [ofChar?_eq_meaning?, meaning?, HasMeaning]
  by_cases hletter : 'A' ≤ c ∧ c ≤ 'Z'
  · simp [hletter]
  · simp [hletter, List.lookup_isSome_iff]

theorem ofChar?_eq_none_iff {c : Char} : ofChar? c = none ↔ ¬HasMeaning c := by
  rw [← isSome_ofChar?_iff, Option.not_isSome_iff_eq_none]

theorem ofChar?_eq_openFork_iff {c : Char} : ofChar? c = some .openFork ↔ c = '[' := by
  constructor
  · unfold ofChar?
    split <;> simp
  · rintro rfl
    rfl

theorem ofChar?_eq_closeFork_iff {c : Char} : ofChar? c = some .closeFork ↔ c = ']' := by
  constructor
  · unfold ofChar?
    split <;> simp
  · rintro rfl
    rfl

end Symbol

/-- All characters of the sentence have a meaning. -/
def Sentence.Readable (s : Sentence) : Prop := ∀ c ∈ s, Symbol.HasMeaning c

-- Named, as a search among all instances may decide this by going through all characters there are.
instance (s : Sentence) : Decidable s.Readable := List.decidableBAll Symbol.HasMeaning s

/-- The branches that are open while a sentence is read. -/
structure Reading (α : Type) where
  current : OpenBranch α
  /-- The branches around the current one, innermost first. -/
  outer : List (OpenBranch α)

namespace Reading

variable {α : Type}

/-- How many forks are open. -/
def depth (s : Reading α) : Nat := s.outer.length

/-- The same reading inside further branches. -/
def inside (s : Reading α) (more : List (OpenBranch α)) : Reading α :=
  { s with outer := s.outer ++ more }

variable [Scalar α]

def start (turtle : Turtle α) : Reading α := ⟨.start turtle, []⟩

/-- The reading behind one more symbol, unless that closes a fork where none is open. -/
def next? (s : Reading α) : Symbol → Option (Reading α)
  | .forward => some { s with current := s.current.advance }
  | .turn t => some { s with current := s.current.rotate t }
  | .openFork => some ⟨.start s.current.turtle, s.current :: s.outer⟩
  | .closeFork =>
    match s.outer with
    | [] => none
    | parent :: outer => some ⟨parent.addFork s.current.close, outer⟩

/-- The reading behind one more character, if that has a meaning and closes no more than is open. -/
def step? (s : Reading α) (c : Char) : Option (Reading α) := (Symbol.ofChar? c).bind s.next?

/-- The reading behind a part of a sentence. -/
def after? (s : Reading α) (sentence : Sentence) : Option (Reading α) := sentence.foldlM step? s

/-- What becomes of a reading when the rest of its sentence, from `position`, is interpreted. -/
def read (s : Reading α) (position : Nat) (rest : Sentence) :
    Except TurtleError (Interpretation α) :=
  interpretFrom position s.current s.outer rest

variable {s s' : Reading α} {c : Char} {u v : Sentence}

theorem after?_cons : s.after? (c :: u) = (s.step? c).bind (·.after? u) := rfl

theorem after?_append : s.after? (u ++ v) = (s.after? u).bind (·.after? v) := List.foldlM_append

/-! ## Interpretation in steps -/

/-- Interpretation takes one step, or ends in front of a symbol that allows none. -/
theorem read_cons_eq (s : Reading α) (position : Nat) (c : Char) (rest : Sentence) :
    s.read position (c :: rest) =
      match Symbol.ofChar? c with
      | none => .error (.unknownSymbol c position)
      | some symbol =>
        match s.next? symbol with
        | none => .ok ⟨s.current.close, some position⟩
        | some s' => s'.read (position + 1) rest := by
  obtain ⟨current, outer⟩ := s
  simp only [read, interpretFrom]
  cases Symbol.ofChar? c with
  | none => rfl
  | some symbol =>
    cases symbol with
    | forward | turn | openFork => rfl
    | closeFork => cases outer <;> rfl

theorem outer_of_next?_eq_none {symbol : Symbol} (h : s.next? symbol = none) : s.outer = [] := by
  obtain ⟨current, outer⟩ := s
  cases symbol with
  | forward | turn | openFork => cases h
  | closeFork =>
    cases outer with
    | nil => rfl
    | cons parent outer => cases h

/-- A character is rejected, or it ends the reading as no fork is open that it could close, or it
takes the reading one step further. -/
theorem read_cons_cases (s : Reading α) (position : Nat) (c : Char) (rest : Sentence) :
    (¬Symbol.HasMeaning c ∧ s.read position (c :: rest) = .error (.unknownSymbol c position)) ∨
      Symbol.HasMeaning c ∧
        (s.step? c = none ∧ s.outer = [] ∧
            s.read position (c :: rest) = .ok ⟨s.current.close, some position⟩ ∨
          ∃ s', s.step? c = some s' ∧
            s.read position (c :: rest) = s'.read (position + 1) rest) := by
  rw [read_cons_eq, step?]
  cases hc : Symbol.ofChar? c with
  | none => exact .inl ⟨Symbol.ofChar?_eq_none_iff.1 hc, rfl⟩
  | some symbol =>
    have hmeaning : Symbol.HasMeaning c := by simp [← Symbol.isSome_ofChar?_iff, hc]
    refine .inr ⟨hmeaning, ?_⟩
    simp only [Option.bind_some]
    cases hnext : s.next? symbol with
    | none => exact .inl ⟨rfl, outer_of_next?_eq_none hnext, rfl⟩
    | some s' => exact .inr ⟨s', rfl, rfl⟩

theorem read_cons (h : s.step? c = some s') (position : Nat) (rest : Sentence) :
    s.read position (c :: rest) = s'.read (position + 1) rest := by
  obtain ⟨symbol, hc, hnext⟩ := Option.bind_eq_some_iff.1 h
  rw [read_cons_eq, hc]
  simp only [hnext]

/-- Interpretation goes on from the reading behind a part of the sentence, whatever follows. -/
theorem read_append (h : s.after? u = some s') (position : Nat) (rest : Sentence) :
    s.read position (u ++ rest) = s'.read (position + u.length) rest := by
  induction u generalizing s position with
  | nil =>
    cases h
    rfl
  | cons c u ih =>
    obtain ⟨between, hstep, hafter⟩ := Option.bind_eq_some_iff.1 h
    rw [List.cons_append, read_cons hstep, ih hafter, List.length_cons, Nat.add_right_comm,
      Nat.add_assoc]

/-! ## Depth -/

theorem map_depth_step? (hc : Symbol.HasMeaning c) (s : Reading α) :
    (s.step? c).map depth = depthBehind? s.depth c := by
  obtain ⟨symbol, hc⟩ := Option.isSome_iff_exists.1 (Symbol.isSome_ofChar?_iff.2 hc)
  obtain ⟨current, outer⟩ := s
  rw [step?, hc, Option.bind_some]
  cases symbol with
  | forward | turn =>
    have hopening : c ≠ '[' := fun h => by simp [Symbol.ofChar?_eq_openFork_iff.2 h] at hc
    have hclosing : c ≠ ']' := fun h => by simp [Symbol.ofChar?_eq_closeFork_iff.2 h] at hc
    simp [next?, depth, depthBehind?, hopening, hclosing]
  | openFork =>
    rw [Symbol.ofChar?_eq_openFork_iff] at hc
    simp [next?, depth, depthBehind?, hc]
  | closeFork =>
    rw [Symbol.ofChar?_eq_closeFork_iff] at hc
    cases outer <;> simp [next?, depth, depthBehind?, hc]

/-- A reading is as deep as the brackets that are open, and it stops where one has no partner. -/
theorem map_depth_after? (hu : u.Readable) (s : Reading α) :
    (s.after? u).map depth = Sentence.depthAfter? s.depth u := by
  induction u generalizing s with
  | nil => rfl
  | cons c u ih =>
    obtain ⟨hc, hu⟩ := List.forall_mem_cons.1 hu
    rw [after?_cons, Sentence.depthAfter?_cons, ← map_depth_step? hc, Option.map_bind,
      Option.bind_map]
    exact congrArg _ (funext fun _ => ih hu _)

theorem exists_after? (hu : u.Readable) {depthAfter : Nat}
    (h : Sentence.depthAfter? s.depth u = some depthAfter) :
    ∃ s', s.after? u = some s' ∧ s'.depth = depthAfter := by
  rwa [← map_depth_after? hu, Option.map_eq_some_iff] at h

/-- What an accepted reading has passed is readable. -/
theorem readable_of_read_eq_ok {position depthAfter : Nat} {i : Interpretation α}
    (h : s.read position (u ++ v) = .ok i)
    (hdepth : Sentence.depthAfter? s.depth u = some depthAfter) :
    u.Readable := by
  induction u generalizing s position with
  | nil => exact List.forall_mem_nil _
  | cons c u ih =>
    obtain ⟨between, hbehind, hrest⟩ := Option.bind_eq_some_iff.1 hdepth
    have hc : Symbol.HasMeaning c := by
      rw [← Symbol.isSome_ofChar?_iff, Option.isSome_iff_ne_none]
      intro hnone
      simp [read_cons_eq, hnone] at h
    rw [← map_depth_step? hc, Option.map_eq_some_iff] at hbehind
    obtain ⟨s', hstep, rfl⟩ := hbehind
    rw [List.cons_append, read_cons hstep] at h
    exact List.forall_mem_cons.2 ⟨hc, ih h hrest⟩

/-- Balanced brackets lead back to the root. -/
theorem exists_after?_of_balanced (hu : u.Readable) (hbalanced : u.Balanced)
    (turtle : Turtle α) : ∃ root, (start turtle).after? u = some ⟨root, []⟩ := by
  obtain ⟨⟨root, outer⟩, hafter, hdepth⟩ := exists_after? (s := start turtle) hu hbalanced
  obtain rfl : outer = [] := List.length_eq_zero_iff.1 hdepth
  exact ⟨root, hafter⟩

/-- The skeleton that a reading makes if its sentence ends. -/
def skeleton (s : Reading α) : Branch α := closeAll s.current.close s.outer

theorem read_eq_ok (h : s.after? u = some s') (position : Nat) :
    s.read position u = .ok ⟨s'.skeleton, none⟩ := by
  have := read_append h position []
  rwa [List.append_nil] at this

theorem interpret_eq_ok {turtle : Turtle α} {root : OpenBranch α}
    (h : (start turtle).after? u = some ⟨root, []⟩) :
    interpret turtle u = .ok ⟨root.close, none⟩ := read_eq_ok h 0

/-- A readable sentence is accepted, whether or not its brackets match. -/
theorem exists_read_eq_ok (hu : u.Readable) (s : Reading α) (position : Nat) :
    ∃ i, s.read position u = .ok i := by
  induction u generalizing s position with
  | nil => exact ⟨_, rfl⟩
  | cons c u ih =>
    obtain ⟨hc, hu⟩ := List.forall_mem_cons.1 hu
    obtain ⟨hnone, -⟩ | ⟨-, ⟨-, -, hread⟩ | ⟨s', -, hread⟩⟩ := s.read_cons_cases position c u
    · exact absurd hc hnone
    · exact ⟨_, hread⟩
    · rw [hread]
      exact ih hu s' (position + 1)

/-! ## Branches around a reading -/

theorem next?_inside {symbol : Symbol} (h : s.next? symbol = some s')
    (more : List (OpenBranch α)) : (s.inside more).next? symbol = some (s'.inside more) := by
  obtain ⟨current, outer⟩ := s
  cases symbol with
  | forward | turn | openFork =>
    cases h
    rfl
  | closeFork =>
    cases outer with
    | nil => cases h
    | cons parent outer =>
      cases h
      rfl

theorem step?_inside (h : s.step? c = some s') (more : List (OpenBranch α)) :
    (s.inside more).step? c = some (s'.inside more) := by
  obtain ⟨symbol, hc, hnext⟩ := Option.bind_eq_some_iff.1 h
  rw [step?, hc, Option.bind_some, next?_inside hnext]

/-- What a sentence does without closing more than it opens, it does inside further branches as
well, and these stay as they are. -/
theorem after?_inside (h : s.after? u = some s') (more : List (OpenBranch α)) :
    (s.inside more).after? u = some (s'.inside more) := by
  induction u generalizing s with
  | nil =>
    cases h
    rfl
  | cons c u ih =>
    obtain ⟨between, hstep, hafter⟩ := Option.bind_eq_some_iff.1 h
    rw [after?_cons, step?_inside hstep more, Option.bind_some, ih hafter]

end Reading

/-! ## Branches of a reading -/

namespace OpenBranch

variable {α : Type}

/-- The number of branches that an open branch has become so far, with those on its forks. -/
def size (b : OpenBranch α) : Nat := 1 + Branch.total b.forks

/-- The number of branches on a stack of open ones, with those on their forks. -/
def total : List (OpenBranch α) → Nat
  | [] => 0
  | b :: rest => b.size + total rest

@[simp] theorem size_start (turtle : Turtle α) : (start turtle).size = 1 := rfl

@[simp] theorem size_addFork (b : OpenBranch α) (fork : Branch α) :
    (b.addFork fork).size = b.size + fork.size := by
  simp only [size, addFork, Branch.total]
  omega

variable [Scalar α]

@[simp] theorem size_advance (b : OpenBranch α) : b.advance.size = b.size := rfl

@[simp] theorem forks_record (b : OpenBranch α) : b.record.forks = b.forks := by
  rw [record_eq]
  split <;> rfl

@[simp] theorem size_rotate (b : OpenBranch α) (t : Turn) : (b.rotate t).size = b.size := by
  simp [size, rotate]

@[simp] theorem size_close (b : OpenBranch α) : b.close.size = b.size := by
  simp [Branch.size_eq, size, close]

end OpenBranch

namespace Reading

variable {α : Type} [Scalar α] {s s' : Reading α} {c : Char} {u : Sentence}

/-- The number of branches that a reading has come across. -/
def branchCount (s : Reading α) : Nat := s.current.size + OpenBranch.total s.outer

theorem branchCount_of_step? (h : s.step? c = some s') :
    s'.branchCount = s.branchCount + if c = '[' then 1 else 0 := by
  obtain ⟨symbol, hc, hnext⟩ := Option.bind_eq_some_iff.1 h
  obtain ⟨current, outer⟩ := s
  cases symbol with
  | forward | turn =>
    have hopening : c ≠ '[' := fun h => by simp [Symbol.ofChar?_eq_openFork_iff.2 h] at hc
    cases hnext
    simp [branchCount, hopening]
  | openFork =>
    cases hnext
    simp [branchCount, Symbol.ofChar?_eq_openFork_iff.1 hc, OpenBranch.total, Nat.add_comm]
  | closeFork =>
    cases outer with
    | nil => cases hnext
    | cons parent outer =>
      cases hnext
      simp [branchCount, Symbol.ofChar?_eq_closeFork_iff.1 hc, OpenBranch.total]
      omega

/-- A reading comes across one branch for each opening bracket. -/
theorem branchCount_of_after? (h : s.after? u = some s') :
    s'.branchCount = s.branchCount + u.count '[' := by
  induction u generalizing s with
  | nil =>
    cases h
    rfl
  | cons c u ih =>
    obtain ⟨between, hstep, hafter⟩ := Option.bind_eq_some_iff.1 h
    rw [ih hafter, branchCount_of_step? hstep, List.count_cons]
    simp only [beq_iff_eq]
    omega

end Reading

end ProceduralTree
