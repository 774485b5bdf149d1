import ProceduralTree.Growth.Settings
import ProceduralTree.Proofs.Grammar.Derivations
import ProceduralTree.Proofs.Skeleton.Reading
import ProceduralTree.Proofs.Skeleton.Traversal
import ProceduralTree.Random.Uniform

/-!
# Sentences that are drawn to their end

A sentence is drawable if it consists of letters and marks and its brackets match. Rules that leave
brackets alone and have drawable alternatives derive drawable sentences from drawable ones, whatever
is drawn from the stream. Such a sentence is interpreted to its end, with a fork for each opening
bracket.

## Main definitions

* `Sentence.Drawable`, `Rules.Drawable` — drawable sentences, and rules that keep them so.

## Main statements

* `Sentence.Drawable.exists_interpret` — a drawable sentence is interpreted as a whole.
* `drawable_deriveFrom` — derivations lead to such sentences; the default settings have rules and
  initiators of this kind.
-/

namespace ProceduralTree

/-- A sentence of letters and marks in which every bracket has a partner. -/
structure Sentence.Drawable (s : Sentence) : Prop where
  readable : s.Readable
  balanced : s.Balanced

instance (s : Sentence) : Decidable s.Drawable :=
  decidable_of_iff (s.Readable ∧ s.Balanced)
    ⟨fun h => ⟨h.1, h.2⟩, fun h => ⟨h.1, h.2⟩⟩

/-- Rules that have none for brackets, and only drawable alternatives for other symbols. -/
structure Rules.Drawable (r : Rules) : Prop where
  opening : r.alternatives? '[' = none
  closing : r.alternatives? ']' = none
  alternatives : ∀ {c a}, r.alternatives? c = some a → ∀ text ∈ a.toList, text.Drawable

namespace Rules

variable {r : Rules}

/-- Rules are drawable if their list of entries says so. -/
theorem drawable_of_entries
    (h : ∀ e ∈ r.entries, e.1 ≠ '[' ∧ e.1 ≠ ']' ∧ ∀ text ∈ e.2.toList, text.Drawable) :
    r.Drawable where
  opening := List.lookup_eq_none_iff.2 fun e he => bne_iff_ne.2 (h e he).1.symm
  closing := List.lookup_eq_none_iff.2 fun e he => bne_iff_ne.2 (h e he).2.1.symm
  alternatives := by
    intro c a ha
    exact (h (c, a) (r.mem_entries_iff.2 ha)).2.2

namespace Drawable

theorem sparesBrackets (hr : r.Drawable) : SparesBrackets r.given where
  opening := given_eq_nil_iff.2 hr.opening
  closing := given_eq_nil_iff.2 hr.closing
  balanced := by
    intro c text hmem
    obtain ⟨a, ha, htext⟩ := exists_of_mem_given hmem
    exact (hr.alternatives ha text htext).balanced

theorem drawable_of_derives (hr : r.Drawable) {n : Nat} {s t : Sentence} (hs : s.Drawable)
    (h : Derives r.given n s t) : t.Drawable where
  readable := by
    refine h.forall_mem ?_ hs.readable
    intro c text hmem
    obtain ⟨a, ha, htext⟩ := exists_of_mem_given hmem
    exact (hr.alternatives ha text htext).readable
  balanced := hr.sparesBrackets.balanced_of_derives h hs.balanced

end Drawable

end Rules

/-! ## Interpretation of drawable sentences -/

section Interpretation

variable {α : Type} [Scalar α]

/-- The reading of a drawable sentence ends where it started, at the root, and goes on from there
with whatever follows. -/
theorem Sentence.Drawable.exists_interpret {s : Sentence} (hs : s.Drawable) (turtle : Turtle α) :
    ∃ root : OpenBranch α, interpret turtle s = .ok ⟨root.close, none⟩ ∧
      (∀ rest, interpretFrom 0 (.start turtle) [] (s ++ rest) =
        interpretFrom s.length root [] rest) ∧
      root.close.forkCount = s.count '[' := by
  obtain ⟨root, hafter⟩ := Reading.exists_after?_of_balanced hs.readable hs.balanced turtle
  refine ⟨root, Reading.interpret_eq_ok hafter, ?_, ?_⟩
  · intro rest
    have := Reading.read_append hafter 0 rest
    rwa [Nat.zero_add] at this
  · have hcount : root.size = 1 + s.count '[' := Reading.branchCount_of_after? hafter
    rw [Branch.forkCount, Branch.length_preorder, OpenBranch.size_close, hcount]
    omega

end Interpretation

theorem Settings.exists_drawable_ruleSet {α : Type} [Scalar α] :
    ∃ r, (default : Settings α).ruleSet = .ok r ∧ r.Drawable ∧
      ∀ s ∈ (default : Settings α).initiators, s.Drawable := by
  refine ⟨_, rfl, Rules.drawable_of_entries ?_, ?_⟩
  · decide +kernel
  · dsimp only [default]
    decide +kernel

/-- Whatever is drawn, rules that are drawable derive drawable sentences from drawable ones, and
any turtle draws such a sentence to its end, with one fork for each opening bracket. The default
settings grow all trees from such rules and sentences. -/
theorem drawable_deriveFrom :
    (∀ {r : Rules} {s : Sentence}, r.Drawable → s.Drawable →
      ∀ {σ α : Type} [ChoiceSource σ] [Scalar α] (n : Nat) (source : σ) (turtle : Turtle α),
        let t := (r.deriveFrom n s source).sentence
        t.Drawable ∧
        ∃ root : OpenBranch α, interpret turtle t = .ok ⟨root.close, none⟩ ∧
          (∀ rest, interpretFrom 0 (.start turtle) [] (t ++ rest) =
            interpretFrom t.length root [] rest) ∧
          root.close.forkCount = t.count '[') ∧
    ∀ {α : Type} [Scalar α], ∃ r, (default : Settings α).ruleSet = .ok r ∧ r.Drawable ∧
      ∀ s ∈ (default : Settings α).initiators, s.Drawable := by
  refine ⟨?_, Settings.exists_drawable_ruleSet⟩
  intro r s hr hs σ α _ _ n source turtle t
  have ht : t.Drawable := hr.drawable_of_derives hs (Rules.derives_deriveFrom r s source n)
  exact ⟨ht, ht.exists_interpret turtle⟩

/-- Five steps of the default rules with the stream of a seed, drawn by the default turtle. -/
theorem drawable_deriveFrom_default :
    ∃ r, (default : Settings Float).ruleSet = .ok r ∧ r.Drawable ∧
      Sentence.Drawable ['B', 'B', 'A'] ∧
      let t := (r.deriveFrom 5 ['B', 'B', 'A'] (Keystream.ofSeed 42)).sentence
      ∃ root : OpenBranch Float, interpret (.start default) t = .ok ⟨root.close, none⟩ ∧
        root.close.forkCount = t.count '[' := by
  obtain ⟨r, hruleSet, hr, -⟩ :
      ∃ r, (default : Settings Float).ruleSet = .ok r ∧ r.Drawable ∧ _ := drawable_deriveFrom.2
  have hs : Sentence.Drawable ['B', 'B', 'A'] := by decide
  let turtle := Turtle.start (default : TurtleTraits Float)
  obtain ⟨-, root, hroot, -, hcount⟩ :=
    drawable_deriveFrom.1 hr hs 5 (Keystream.ofSeed 42) turtle
  exact ⟨r, hruleSet, hr, hs, root, hroot, hcount⟩

end ProceduralTree
