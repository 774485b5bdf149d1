import ProceduralTree.Proofs.Skeleton.Reading

/-!
# Sentences that are rejected

A turtle rejects a sentence for a character without a meaning, but only if it gets there. A closing
bracket without a partner ends the reading, so that nothing behind it matters.

## Main definitions

* `Sentence.FailsAt` — a sentence with a character that cannot be read, and nothing before it that
  ends the reading.

## Main statements

* `Reading.read_eq_error_iff` — how the rest of a sentence is rejected.
* `interpret_eq_error_iff` — which sentences are rejected, and at which character.
-/

namespace ProceduralTree

namespace Sentence

/-- Character `n` is `c` and has no meaning, all before it have one, and in no part from the start
up to there are more brackets closed than opened. -/
def FailsAt (s : Sentence) (n : Nat) (c : Char) : Prop :=
  s[n]? = some c ∧ ¬Symbol.HasMeaning c ∧ Readable (s.take n) ∧
    ∀ k ≤ n, (s.take k).count ']' ≤ (s.take k).count '['

instance (s : Sentence) (n : Nat) (c : Char) : Decidable (s.FailsAt n c) :=
  inferInstanceAs (Decidable (_ ∧ _ ∧ _ ∧ _))

theorem closesOnlyOpened_take_iff {s : Sentence} {n : Nat} :
    ClosesOnlyOpened (s.take n) ↔ ∀ k ≤ n, (s.take k).count ']' ≤ (s.take k).count '[' := by
  rw [ClosesOnlyOpened, isSome_depthAfter?_iff]
  simp only [List.take_take, Nat.zero_add]
  constructor
  · intro h k hk
    simpa [Nat.min_eq_left hk] using h k
  · intro h k
    exact h (min k n) (Nat.min_le_right k n)

theorem failsAt_iff {s : Sentence} {n : Nat} {c : Char} :
    s.FailsAt n c ↔ ∃ u v, s = u ++ c :: v ∧ u.Readable ∧ u.ClosesOnlyOpened ∧
      ¬Symbol.HasMeaning c ∧ u.length = n := by
  rw [FailsAt, ← closesOnlyOpened_take_iff]
  constructor
  · rintro ⟨hc, hmeaning, hreadable, hcloses⟩
    obtain ⟨hn, hc⟩ := List.getElem?_eq_some_iff.1 hc
    refine ⟨s.take n, s.drop (n + 1), ?_, hreadable, hcloses, hmeaning,
      List.length_take_of_le (Nat.le_of_lt hn)⟩
    rw [← hc, ← List.drop_eq_getElem_cons hn, List.take_append_drop]
  · rintro ⟨u, v, rfl, hreadable, hcloses, hmeaning, rfl⟩
    rw [List.take_left]
    exact ⟨by simp, hmeaning, hreadable, hcloses⟩

end Sentence

variable {α : Type} [Scalar α]

/-- The rest of a sentence is rejected for its first character without a meaning, if none of the
brackets before that closes more than is open. -/
theorem Reading.read_eq_error_iff {s : Reading α} {position : Nat} {rest : Sentence}
    {e : TurtleError} :
    s.read position rest = .error e ↔ ∃ u c v, rest = u ++ c :: v ∧ u.Readable ∧
      (Sentence.depthAfter? s.depth u).isSome ∧ ¬Symbol.HasMeaning c ∧
      e = .unknownSymbol c (position + u.length) := by
  constructor
  · intro h
    induction rest generalizing s position with
    | nil => cases h
    | cons d rest ih =>
      obtain ⟨hd, hread⟩ | ⟨hd, ⟨-, -, hread⟩ | ⟨s', hstep, hread⟩⟩ :=
        s.read_cons_cases position d rest
      · cases hread.symm.trans h
        exact ⟨[], d, rest, rfl, List.forall_mem_nil _, rfl, hd, rfl⟩
      · cases hread.symm.trans h
      · obtain ⟨u, c, v, rfl, hu, hdepth, hc, rfl⟩ := ih (hread.symm.trans h)
        refine ⟨d :: u, c, v, rfl, List.forall_mem_cons.2 ⟨hd, hu⟩, ?_, hc, ?_⟩
        · rwa [Sentence.depthAfter?_cons, ← map_depth_step? hd, hstep]
        · rw [List.length_cons, Nat.add_right_comm, Nat.add_assoc]
  · rintro ⟨u, c, v, rfl, hu, hdepth, hc, rfl⟩
    obtain ⟨depth, hdepth⟩ := Option.isSome_iff_exists.1 hdepth
    obtain ⟨s', hafter, -⟩ := exists_after? hu hdepth
    rw [read_append hafter, read_cons_eq, Symbol.ofChar?_eq_none_iff.2 hc]

theorem interpret_eq_unknownSymbol_iff {turtle : Turtle α} {sentence : Sentence} {c : Char}
    {n : Nat} :
    interpret turtle sentence = .error (.unknownSymbol c n) ↔ sentence.FailsAt n c := by
  change (Reading.start turtle).read 0 sentence = _ ↔ _
  rw [Reading.read_eq_error_iff, Sentence.failsAt_iff]
  simp only [Nat.zero_add, TurtleError.unknownSymbol.injEq]
  constructor
  · rintro ⟨u, _, v, hsplit, hu, hdepth, hc, rfl, rfl⟩
    exact ⟨u, v, hsplit, hu, hdepth, hc, rfl⟩
  · rintro ⟨u, v, hsplit, hu, hdepth, hc, rfl⟩
    exact ⟨u, c, v, hsplit, hu, hdepth, hc, rfl, rfl⟩

/-- A sentence is rejected exactly for a character without a meaning that the reading gets to, and
with the position of that character. All other sentences are accepted. -/
theorem interpret_eq_error_iff (turtle : Turtle α) (sentence : Sentence) :
    (∀ c n, interpret turtle sentence = .error (.unknownSymbol c n) ↔ sentence.FailsAt n c) ∧
      ((∃ i, interpret turtle sentence = .ok i) ↔ ¬∃ n c, sentence.FailsAt n c) := by
  refine ⟨fun c n => interpret_eq_unknownSymbol_iff, ?_⟩
  constructor
  · rintro ⟨i, hi⟩ ⟨n, c, hfails⟩
    cases hi.symm.trans (interpret_eq_unknownSymbol_iff.2 hfails)
  · intro hnone
    cases h : interpret turtle sentence with
    | ok i => exact ⟨i, rfl⟩
    | error e =>
      obtain ⟨c, n⟩ := e
      exact absurd ⟨n, c, interpret_eq_unknownSymbol_iff.1 h⟩ hnone

/-- Positions count characters, and a bracket without a partner hides what stands behind it. -/
example : Sentence.FailsAt "A[éb".toList 2 'é' ∧ ¬Sentence.FailsAt "A]b".toList 2 'b' := by decide

end ProceduralTree
