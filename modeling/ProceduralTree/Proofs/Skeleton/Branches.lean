import ProceduralTree.Proofs.Grammar.Levels
import ProceduralTree.Proofs.Skeleton.Drawing
import ProceduralTree.Proofs.Skeleton.Openings

/-!
# Branches and their levels

Every branch of a skeleton is the root of what the text behind its bracket draws. What the rules of
drawing say about a level, they therefore say about all branches.

## Main statements

* `Turtle.Draws.ownFrom_succ` — what is left behind a level in the text around it.
* `exists_draws_of_getElem?` — every branch of a skeleton is drawn on a level of its own.
-/

namespace ProceduralTree

namespace Symbol

theorem ofChar?_eq_forward_iff {c : Char} :
    ofChar? c = some .forward ↔ 'A' ≤ c ∧ c ≤ 'Z' := by
  unfold ofChar?
  split
  case h_9 => simp
  all_goals simp only [Option.some.injEq, reduceCtorEq, false_iff]; decide

theorem mem_of_ofChar?_eq_turn {c : Char} {t : Turn} (h : ofChar? c = some (.turn t)) :
    c ∈ ['+', '-', '/', '\\', '^', '_'] := by
  unfold ofChar? at h
  split at h <;> simp_all

theorem not_isBracket_of_ofChar?_eq_forward {c : Char} (h : ofChar? c = some .forward) :
    ¬Sentence.IsBracket c := by
  rintro (rfl | rfl) <;> cases h

theorem not_isBracket_of_ofChar?_eq_turn {c : Char} {t : Turn} (h : ofChar? c = some (.turn t)) :
    ¬Sentence.IsBracket c := by
  rintro (rfl | rfl) <;> cases h

end Symbol

namespace Sentence

variable {c : Char} {t : Turn}

theorem own_cons_forward (hc : Symbol.ofChar? c = some .forward) (s : Sentence) :
    own (c :: s) = c :: own s := own_cons (Symbol.not_isBracket_of_ofChar?_eq_forward hc) s

theorem own_cons_turn (hc : Symbol.ofChar? c = some (.turn t)) (s : Sentence) :
    own (c :: s) = c :: own s := own_cons (Symbol.not_isBracket_of_ofChar?_eq_turn hc) s

theorem letters_cons_forward (hc : Symbol.ofChar? c = some .forward) (s : Sentence) :
    letters (c :: s) = letters s + 1 := by
  have := Symbol.ofChar?_eq_forward_iff.1 hc
  simp [letters, this]

theorem turns_cons_turn (hc : Symbol.ofChar? c = some (.turn t)) (s : Sentence) :
    turns (c :: s) = turns s + 1 :=
  List.countP_cons_of_pos (decide_eq_true (Symbol.mem_of_ofChar?_eq_turn hc))

theorem letters_cons_turn (hc : Symbol.ofChar? c = some (.turn t)) (s : Sentence) :
    letters (c :: s) = letters s := by
  refine List.countP_cons_of_neg fun hletter => ?_
  rw [decide_eq_true_eq, ← Symbol.ofChar?_eq_forward_iff, hc] at hletter
  cases hletter

end Sentence

variable {α : Type} [Scalar α]

namespace Turtle

namespace Draws

variable {limit : Nat} {turtle : Turtle α} {last : Vec3 α} {sentence : Sentence}
  {level : Level α limit}

/-- Behind a level, the text around it goes on. -/
theorem ownFrom_succ (h : turtle.Draws last sentence level) (depth : Nat) :
    Sentence.ownFrom (depth + 1) sentence = Sentence.ownFrom depth level.ending.rest := by
  induction h generalizing depth with
  | sentence => rfl
  | bracket => exact Sentence.ownFrom_succ_closing depth _
  | step hc _ _ ih =>
    rw [Sentence.ownFrom_succ_cons (Symbol.not_isBracket_of_ofChar?_eq_forward hc), ih]
    rfl
  | record hc _ _ _ ih | turn hc _ _ _ ih =>
    rw [Sentence.ownFrom_succ_cons (Symbol.not_isBracket_of_ofChar?_eq_turn hc), ih]
    rfl
  | fork _ _ _ ihInside ih =>
    rw [Sentence.ownFrom_succ_opening, ihInside, ih]
    rfl

theorem own_opening {limit' : Nat} {inner : Level α limit'} {rest : Sentence}
    (inside : turtle.Draws turtle.position rest inner) :
    Sentence.own ('[' :: rest) = Sentence.own inner.ending.rest :=
  inside.ownFrom_succ 0

end Draws

end Turtle

/-! ## Branches of a skeleton -/

variable {turtle : Turtle α} {sentence : Sentence} {i : Interpretation α}

theorem length_preorder_of_after? {s : Reading α}
    (h : (Reading.start turtle).after? sentence = some s) :
    s.skeleton.preorder.length = 1 + sentence.count '[' := by
  have hcount := Reading.branchCount_of_after? h
  rw [Branch.length_preorder, Reading.skeleton, size_closeAll, OpenBranch.size_close]
  exact hcount

/-- In the order of the walk, branch `n` of a skeleton is drawn on the level behind the opening
bracket `n` of its sentence, by the turtle as it is there. The root is branch zero. -/
theorem exists_draws_of_getElem? {n : Nat} {b : Branch α} (h : interpret turtle sentence = .ok i)
    (hb : i.root.preorder[n]? = some b) :
    ∃ (s : Reading α) (limit : Nat) (level : Level α limit),
      (Reading.start turtle).after? (sentence.reach.upTo n) = some s ∧
      s.current.turtle.Draws s.current.turtle.position (sentence.reach.behind n) level ∧
      b = level.branch s.current.turtle := by
  obtain ⟨s', hafter, hroot⟩ := Reading.exists_after?_reach (s := .start turtle) h
  change (Reading.start turtle).after? sentence.reach = some s' at hafter
  cases n with
  | zero =>
    obtain ⟨level, hdraws, hlevel⟩ := exists_draws_of_interpret (Reading.read_eq_ok hafter 0)
    rw [Branch.preorder_eq, List.getElem?_cons_zero, Option.some_inj] at hb
    rw [Sentence.upTo_zero, Sentence.behind_zero]
    exact ⟨.start turtle, _, level, rfl, hdraws, by rw [← hb, hroot]; exact hlevel⟩
  | succ n =>
    have hlt : n < sentence.reach.count '[' := by
      have hlength := length_preorder_of_after? hafter
      have := (List.getElem?_eq_some_iff.1 hb).1
      rw [hroot] at this
      omega
    obtain ⟨u, v, hsplit, hcount, hup, hbehind⟩ := Sentence.exists_cut hlt
    rw [hsplit, Reading.after?_append] at hafter
    obtain ⟨s, hs, hrest⟩ := Option.bind_eq_some_iff.1 hafter
    obtain ⟨fork, unmatched, hfork, hplace, -⟩ :=
      Reading.exists_fork_of_read (Reading.read_eq_ok hrest 0)
    rw [Reading.branchCount_of_after? hs, Reading.branchCount_start, hcount, Nat.add_comm, ← hroot,
      hb, Option.some_inj] at hplace
    obtain ⟨level, hdraws, hlevel⟩ := exists_draws_of_interpret hfork
    rw [hup, hbehind, Reading.after?_append, hs]
    exact ⟨⟨.start s.current.turtle, s.current :: s.outer⟩, _, level, rfl, hdraws,
      by rw [hplace]; exact hlevel⟩

end ProceduralTree
