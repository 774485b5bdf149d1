import Mathlib.Logic.Function.Iterate
import ProceduralTree.Proofs.Grammar.Derivations

/-!
# Derivations in parts

A derivation may be interrupted after any step and taken up again later. A step may be made on one
part of a sentence after the other. Several steps may not: the second step of the first part would
draw before the first step of the second part. Only rules that leave nothing to draw may be applied
to the parts of a sentence any number of times.

## Main definitions

* `Rules.IsDeterministic` — rules without a choice.
* `Rules.image` — what such rules make of a symbol.

## Main statements

* `Rules.deriveFrom_add` — some steps and then some more.
* `Rules.expand_append` — one step on two parts of a sentence.
* `Rules.deriveFrom_of_isDeterministic` — rules without a choice derive without the stream.
* `Rules.deriveFrom_composes` — how derivations are put together.
-/

namespace ProceduralTree.Rules

section Parts

variable {σ : Type} [ChoiceSource σ] (r : Rules)

/-- A derivation goes on with the sentence and the stream that its first steps leave. -/
theorem deriveFrom_add (m n : Nat) (s : Sentence) (source : σ) :
    let first := r.deriveFrom m s source
    let second := r.deriveFrom n first.sentence first.source
    r.deriveFrom (m + n) s source =
      ⟨second.sentence, first.lengths ++ second.lengths, second.source⟩ := by
  induction m generalizing s source with
  | zero => simp [deriveFrom]
  | succ m ih => simp only [Nat.succ_add, deriveFrom, ih, List.cons_append]

/-- The second part of a sentence draws from what the first part leaves of the stream. -/
theorem expand_append (u v : Sentence) (source : σ) :
    let left := r.expand u source
    let right := r.expand v left.2
    r.expand (u ++ v) source = (left.1 ++ right.1, right.2) := by
  induction u generalizing source with
  | nil => rfl
  | cons c u ih => simp only [List.cons_append, expand_cons, ih, List.append_assoc]

theorem deriveFrom_one (s : Sentence) (source : σ) :
    (r.deriveFrom 1 s source).sentence = (r.expand s source).1 ∧
      (r.deriveFrom 1 s source).source = (r.expand s source).2 := ⟨rfl, rfl⟩

end Parts

/-! ## Rules without a choice -/

/-- Every rule has a single alternative. -/
def IsDeterministic (r : Rules) : Prop := ∀ e ∈ r.entries, e.2.others = []

instance (r : Rules) : Decidable r.IsDeterministic :=
  inferInstanceAs (Decidable (∀ e ∈ r.entries, _))

/-- The first alternative of a symbol with a rule, and any other symbol itself. -/
def image (r : Rules) (c : Char) : Sentence := (r.alternatives? c).elim [c] Alternatives.first

theorem iterate_image_append (r : Rules) (n : Nat) (u v : Sentence) :
    (List.flatMap r.image)^[n] (u ++ v) =
      (List.flatMap r.image)^[n] u ++ (List.flatMap r.image)^[n] v := by
  induction n generalizing u v with
  | zero => rfl
  | succ n ih => simp only [Function.iterate_succ_apply, List.flatMap_append, ih]

section Deterministic

variable {σ : Type} [ChoiceSource σ] {r : Rules}

theorem replacement_of_isDeterministic (h : r.IsDeterministic) (c : Char) (source : σ) :
    r.replacement c source = (r.image c, source) := by
  rw [replacement, image]
  cases ha : r.alternatives? c with
  | none => rfl
  | some a =>
    have hothers : a.others = [] := h (c, a) (r.mem_entries_iff.2 ha)
    simp [Alternatives.choose, hothers]

theorem expand_of_isDeterministic (h : r.IsDeterministic) (s : Sentence) (source : σ) :
    r.expand s source = (s.flatMap r.image, source) := by
  induction s with
  | nil => rfl
  | cons c s ih => rw [expand_cons, replacement_of_isDeterministic h, ih, List.flatMap_cons]

/-- Without a choice, a derivation takes images of symbols again and again, and draws nothing. -/
theorem deriveFrom_of_isDeterministic (h : r.IsDeterministic) (n : Nat) (s : Sentence)
    (source : σ) :
    (r.deriveFrom n s source).sentence = (List.flatMap r.image)^[n] s ∧
      (r.deriveFrom n s source).source = source := by
  induction n generalizing s with
  | zero => exact ⟨rfl, rfl⟩
  | succ n ih =>
    rw [deriveFrom, expand_of_isDeterministic h, Function.iterate_succ_apply]
    exact ih _

end Deterministic

/-- Steps of a derivation may be made in two portions, and a single step on two parts of a sentence,
if the stream is carried over. If no rule has a choice, any number of steps may be made on the two
parts apart, the outcome is the same for all streams, and a stream is left as it was. -/
theorem deriveFrom_composes (r : Rules) :
    (∀ {σ : Type} [ChoiceSource σ] (source : σ) (m n : Nat) (s : Sentence),
      let first := r.deriveFrom m s source
      let second := r.deriveFrom n first.sentence first.source
      (r.deriveFrom (m + n) s source).sentence = second.sentence ∧
        (r.deriveFrom (m + n) s source).source = second.source) ∧
    (∀ {σ : Type} [ChoiceSource σ] (source : σ) (u v : Sentence),
      let left := r.deriveFrom 1 u source
      let right := r.deriveFrom 1 v left.source
      (r.deriveFrom 1 (u ++ v) source).sentence = left.sentence ++ right.sentence ∧
        (r.deriveFrom 1 (u ++ v) source).source = right.source) ∧
    (r.IsDeterministic → ∀ {σ τ : Type} [ChoiceSource σ] [ChoiceSource τ] (source : σ) (other : τ)
      (n : Nat) (u v : Sentence),
      (r.deriveFrom n (u ++ v) source).sentence =
          (r.deriveFrom n u source).sentence ++ (r.deriveFrom n v source).sentence ∧
        (r.deriveFrom n u source).sentence = (r.deriveFrom n u other).sentence ∧
        (r.deriveFrom n u source).source = source) := by
  refine ⟨fun source m n s => ?_, fun source u v => ?_, fun h σ τ _ _ source other n u v => ?_⟩
  · simp only [deriveFrom_add, and_self]
  · simp only [deriveFrom_one, expand_append, and_self]
  · have hsentence (s : Sentence) := (deriveFrom_of_isDeterministic h n s source).1
    refine ⟨?_, ?_, (deriveFrom_of_isDeterministic h n u source).2⟩
    · rw [hsentence, hsentence, hsentence, iterate_image_append]
    · rw [hsentence, (deriveFrom_of_isDeterministic h n u other).1]

/-- The rule of a shoot that grows a fork to either side. -/
def forking : Rules := insertAll [('A', ["F[+A][-A]".toList])]

/-- Two shoots fork twice, each for itself. -/
theorem deriveFrom_composes_forking :
    forking.IsDeterministic ∧
      let source := Script.mk [1, 0]
      (forking.deriveFrom 2 "AXA".toList source).sentence =
          "F[+F[+A][-A]][-F[+A][-A]]X".toList ++ "F[+F[+A][-A]][-F[+A][-A]]".toList ∧
        (forking.deriveFrom 2 "AX".toList source).source = source := by
  have hforking : forking.IsDeterministic := by decide
  obtain ⟨-, -, happly⟩ := deriveFrom_composes forking
  obtain ⟨happend, -, hsource⟩ :=
    happly hforking (Script.mk [1, 0]) (Script.mk []) 2 "AX".toList "A".toList
  refine ⟨hforking, happend.trans ?_, hsource⟩
  decide

-- With a choice, two steps on two parts draw in another order than two steps on the whole.
example :
    let r := insertAll [('B', ["BB".toList, "C".toList])]
    let left := r.deriveFrom 2 "B".toList (Script.mk [0, 1, 0, 0])
    let right := r.deriveFrom 2 "B".toList left.source
    left.sentence ++ right.sentence = "CBBBBBB".toList ∧
      (r.deriveFrom 2 "BB".toList (Script.mk [0, 1, 0, 0])).sentence = "BBBBC".toList := by
  decide

end ProceduralTree.Rules
