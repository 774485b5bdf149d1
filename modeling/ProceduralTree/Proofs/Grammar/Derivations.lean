import ProceduralTree.Grammar.Derivation
import ProceduralTree.Proofs.Grammar.Rewriting

/-!
# Derivations from streams

A derivation step is one of the parallel rewritings of its sentence, and the draws that it makes say
which one. There is one draw for each occurrence of a symbol with several alternatives, from left to
right, and none for any other symbol. Every rewriting can be had in this way.

## Main definitions

* `Pick` — a draw with its answer.
* `RewritesBy`, `DerivesBy` — rewriting with the picks that choose the alternatives.
* `Supplies` — what a stream answers to a list of draws, and what is left of it.
* `Script` — a stream whose answers are written down beforehand.

## Main statements

* `derives_iff_exists_derivesBy` — the derivations are those that picks make.
* `Rules.exists_derivesBy_deriveFrom`, `Rules.deriveFrom_of_derivesBy` — a derivation from a stream
  makes the draws of its rewritings, and no others.
* `Rules.deriveFrom_insertAll` — what derivations with inserted rules lead to, and what they draw.
-/

namespace ProceduralTree

section Picks

variable (rule : Char → List Sentence)

/-- A draw of one of `count` alternatives, with its answer. -/
structure Pick where
  count : Nat
  index : Fin count

/-- The rewriting in which `picks`, one for each occurrence of a symbol with several alternatives,
choose what replaces it. -/
inductive RewritesBy : Sentence → List Pick → Sentence → Prop
  | nil : RewritesBy [] [] []
  | keep {c : Char} {s t : Sentence} {picks : List Pick} (ruleless : rule c = [])
    (rest : RewritesBy s picks t) : RewritesBy (c :: s) picks (c :: t)
  | only {c : Char} {text s t : Sentence} {picks : List Pick} (only : rule c = [text])
    (rest : RewritesBy s picks t) : RewritesBy (c :: s) picks (text ++ t)
  | pick {c : Char} {s t : Sentence} {picks : List Pick} (several : 2 ≤ (rule c).length)
    (i : Fin (rule c).length) (rest : RewritesBy s picks t) :
    RewritesBy (c :: s) (⟨_, i⟩ :: picks) ((rule c).get i ++ t)

/-- A number of rewritings with their picks, step after step. -/
inductive DerivesBy : Nat → Sentence → List Pick → Sentence → Prop
  | zero {s : Sentence} : DerivesBy 0 s [] s
  | succ {n : Nat} {s t u : Sentence} {picks later : List Pick} (step : RewritesBy rule s picks t)
    (rest : DerivesBy n t later u) : DerivesBy (n + 1) s (picks ++ later) u

/-- The numbers of alternatives of the symbols of a sentence that have several. -/
def drawRanges (s : Sentence) : List Nat := (s.map fun c => (rule c).length).filter (2 ≤ ·)

end Picks

section Rewriting

variable {rule : Char → List Sentence} {n : Nat} {s t : Sentence} {picks : List Pick}

theorem RewritesBy.rewrites (h : RewritesBy rule s picks t) : Rewrites rule s t := by
  induction h with
  | nil => exact .nil
  | keep ruleless _ ih => exact .keep ruleless ih
  | only only _ ih => exact .replace (only ▸ List.mem_singleton_self _) ih
  | pick _ i _ ih => exact .replace (List.get_mem _ i) ih

theorem Rewrites.exists_rewritesBy (h : Rewrites rule s t) :
    ∃ picks, RewritesBy rule s picks t := by
  induction h with
  | nil => exact ⟨_, .nil⟩
  | keep ruleless _ ih =>
    obtain ⟨picks, ih⟩ := ih
    exact ⟨picks, .keep ruleless ih⟩
  | @replace c text _ _ mem _ ih =>
    obtain ⟨picks, ih⟩ := ih
    by_cases several : 2 ≤ (rule c).length
    · obtain ⟨i, rfl⟩ := List.get_of_mem mem
      exact ⟨_, .pick several i ih⟩
    · have hpos := List.length_pos_of_mem mem
      obtain ⟨only, honly⟩ : ∃ only, rule c = [only] := List.length_eq_one_iff.1 (by omega)
      rw [honly, List.mem_singleton] at mem
      subst mem
      exact ⟨picks, .only honly ih⟩

/-- The derivations are those that picks make. -/
theorem derives_iff_exists_derivesBy :
    Derives rule n s t ↔ ∃ picks, DerivesBy rule n s picks t := by
  constructor
  · intro h
    induction h with
    | zero => exact ⟨_, .zero⟩
    | succ step _ ih =>
      obtain ⟨picks, step⟩ := step.exists_rewritesBy
      obtain ⟨later, rest⟩ := ih
      exact ⟨picks ++ later, .succ step rest⟩
  · rintro ⟨picks, h⟩
    induction h with
    | zero => exact .zero
    | succ step _ ih => exact .succ step.rewrites ih

/-- There is one pick for each occurrence of a symbol with several alternatives. -/
theorem RewritesBy.map_count (h : RewritesBy rule s picks t) :
    picks.map Pick.count = drawRanges rule s := by
  induction h with
  | nil => rfl
  | keep ruleless _ ih => simpa [drawRanges, ruleless] using ih
  | only only _ ih => simpa [drawRanges, only] using ih
  | pick several _ _ ih => simpa [drawRanges, several] using ih

end Rewriting

/-! ## Streams of picks -/

section Streams

variable {σ : Type} [ChoiceSource σ]

/-- The stream answers the draws of `picks` as they say, in their order, and then stands at
`rest`. -/
inductive Supplies : σ → List Pick → σ → Prop
  | nil {source : σ} : Supplies source [] source
  | cons {source between rest : σ} {count : Nat} {i : Fin count} {picks : List Pick}
    (answer : ChoiceSource.alternative count i.pos source = (i, between))
    (later : Supplies between picks rest) : Supplies source (⟨count, i⟩ :: picks) rest

theorem Supplies.append {source between rest : σ} {picks later : List Pick}
    (h : Supplies source picks between) (h' : Supplies between later rest) :
    Supplies source (picks ++ later) rest := by
  induction h with
  | nil => exact h'
  | cons answer _ ih => exact .cons answer (ih h')

theorem supplies_append_iff {source rest : σ} {picks later : List Pick} :
    Supplies source (picks ++ later) rest ↔
      ∃ between, Supplies source picks between ∧ Supplies between later rest := by
  constructor
  · intro h
    induction picks generalizing source with
    | nil => exact ⟨source, .nil, h⟩
    | cons p picks ih =>
      cases h with
      | cons answer h =>
        obtain ⟨between, hpicks, hlater⟩ := ih h
        exact ⟨between, .cons answer hpicks, hlater⟩
  · rintro ⟨between, h, h'⟩
    exact h.append h'

end Streams

/-- Numbers to be drawn, one after the other; zeros follow the last of them. -/
structure Script where
  numbers : List Nat

namespace Script

/-- The next number, brought below `count`. -/
def next (count : Nat) (pos : 0 < count) (s : Script) : Fin count × Script :=
  (⟨s.numbers.headD 0 % count, Nat.mod_lt _ pos⟩, ⟨s.numbers.tail⟩)

instance : ChoiceSource Script := ⟨next⟩

/-- A stream that answers as the picks say. -/
def ofPicks (picks : List Pick) : Script := ⟨picks.map fun p => p.index⟩

theorem supplies_ofPicks (picks : List Pick) : Supplies (ofPicks picks) picks (ofPicks []) := by
  induction picks with
  | nil => exact .nil
  | cons p picks ih =>
    refine .cons (Prod.ext (Fin.ext ?_) rfl) ih
    exact Nat.mod_eq_of_lt p.index.isLt

end Script

/-! ## Derivations rewrite -/

namespace Rules

variable {σ : Type} [ChoiceSource σ] (r : Rules)

theorem replacement_of_given_eq_nil {c : Char} (h : r.given c = []) (source : σ) :
    r.replacement c source = ([c], source) := by
  rw [replacement, given_eq_nil_iff.1 h]

theorem replacement_of_given_eq_singleton {c : Char} {text : Sentence} (h : r.given c = [text])
    (source : σ) : r.replacement c source = (text, source) := by
  rw [replacement]
  cases ha : r.alternatives? c with
  | none => simp [given, ha] at h
  | some a =>
    obtain ⟨first, others⟩ := a
    obtain ⟨rfl, rfl⟩ : first = text ∧ others = [] := by
      simpa [given, ha, Alternatives.toList] using h
    rfl

/-- A symbol with several alternatives is replaced as a single draw says. -/
theorem replacement_of_two_le {c : Char} (h : 2 ≤ (r.given c).length) (source : σ) :
    r.replacement c source =
      let drawn := ChoiceSource.alternative (r.given c).length (Nat.zero_lt_of_lt h) source
      ((r.given c).get drawn.1, drawn.2) := by
  rw [replacement]
  cases ha : r.alternatives? c with
  | none => simp [given, ha] at h
  | some a =>
    have hgiven : r.given c = a.toList := by rw [given, ha, Option.elim_some]
    generalize r.given c = texts at h hgiven
    subst hgiven
    obtain ⟨first, _ | ⟨second, others⟩⟩ := a
    · simp [Alternatives.toList] at h
    · rfl

variable {r} {s t : Sentence} {picks : List Pick} {source rest : σ}

/-- The picks of a rewriting are what its expansion draws. -/
theorem expand_of_rewritesBy (h : RewritesBy r.given s picks t) (hs : Supplies source picks rest) :
    r.expand s source = (t, rest) := by
  induction h generalizing source with
  | nil =>
    cases hs
    rfl
  | keep ruleless _ ih =>
    rw [expand_cons, replacement_of_given_eq_nil r ruleless, ih hs, List.singleton_append]
  | only only _ ih => rw [expand_cons, replacement_of_given_eq_singleton r only, ih hs]
  | pick several i _ ih =>
    cases hs with
    | cons answer later => rw [expand_cons, replacement_of_two_le r several, answer, ih later]

variable (r s source) in
theorem exists_rewritesBy_expand :
    ∃ picks, RewritesBy r.given s picks (r.expand s source).1 ∧
      Supplies source picks (r.expand s source).2 := by
  induction s generalizing source with
  | nil => exact ⟨[], .nil, .nil⟩
  | cons c s ih =>
    rw [expand_cons]
    match hgiven : r.given c with
    | [] =>
      obtain ⟨picks, hrewrites, hsupplies⟩ := ih source
      rw [replacement_of_given_eq_nil r hgiven]
      exact ⟨picks, .keep hgiven hrewrites, hsupplies⟩
    | [text] =>
      obtain ⟨picks, hrewrites, hsupplies⟩ := ih source
      rw [replacement_of_given_eq_singleton r hgiven]
      exact ⟨picks, .only hgiven hrewrites, hsupplies⟩
    | _ :: _ :: _ =>
      have several : 2 ≤ (r.given c).length := by simp [hgiven]
      rw [replacement_of_two_le r several]
      obtain ⟨picks, hrewrites, hsupplies⟩ := ih _
      exact ⟨_, .pick several _ hrewrites, .cons rfl hsupplies⟩

theorem deriveFrom_of_derivesBy {n : Nat} (h : DerivesBy r.given n s picks t)
    (hs : Supplies source picks rest) :
    (r.deriveFrom n s source).sentence = t ∧ (r.deriveFrom n s source).source = rest := by
  induction h generalizing source with
  | zero =>
    cases hs
    exact ⟨rfl, rfl⟩
  | succ step _ ih =>
    obtain ⟨between, hpicks, hlater⟩ := supplies_append_iff.1 hs
    rw [deriveFrom, expand_of_rewritesBy step hpicks]
    exact ih hlater

variable (r s source) in
theorem exists_derivesBy_deriveFrom (n : Nat) :
    ∃ picks, DerivesBy r.given n s picks (r.deriveFrom n s source).sentence ∧
      Supplies source picks (r.deriveFrom n s source).source := by
  induction n generalizing s source with
  | zero => exact ⟨[], .zero, .nil⟩
  | succ n ih =>
    obtain ⟨picks, hrewrites, hpicks⟩ := exists_rewritesBy_expand r s source
    obtain ⟨later, hderives, hlater⟩ := ih (r.expand s source).1 (r.expand s source).2
    exact ⟨picks ++ later, .succ hrewrites hderives, hpicks.append hlater⟩

/-- The picks of a derivation, step after step, are from the alternatives in its sentences. -/
theorem map_count_of_derivesBy {n : Nat} (h : DerivesBy r.given n s picks t)
    (hs : Supplies source picks rest) :
    picks.map Pick.count =
      (List.range n).flatMap fun m => drawRanges r.given (r.deriveFrom m s source).sentence := by
  induction h generalizing source with
  | zero => rfl
  | succ step _ ih =>
    obtain ⟨between, hpicks, hlater⟩ := supplies_append_iff.1 hs
    simp only [List.range_succ_eq_map, List.flatMap_cons, List.flatMap_map, List.map_append,
      deriveFrom, expand_of_rewritesBy step hpicks]
    rw [step.map_count, ih hlater]

variable (r s source) in
theorem derives_deriveFrom (n : Nat) : Derives r.given n s (r.deriveFrom n s source).sentence := by
  obtain ⟨picks, h, -⟩ := exists_derivesBy_deriveFrom r s source n
  exact derives_iff_exists_derivesBy.2 ⟨picks, h⟩

/-- Every sentence that can be derived is the outcome for some stream of draws. -/
theorem exists_script_deriveFrom {n : Nat} (h : Derives r.given n s t) :
    ∃ script : Script, (r.deriveFrom n s script).sentence = t := by
  obtain ⟨picks, h⟩ := derives_iff_exists_derivesBy.1 h
  exact ⟨_, (deriveFrom_of_derivesBy h (Script.supplies_ofPicks picks)).1⟩

/-- What a derivation with inserted rules returns is exactly what parallel rewriting leads to. It
draws once for each occurrence of a symbol with several alternatives, from as many numbers as there
are alternatives, and what it draws picks the alternative. -/
theorem deriveFrom_insertAll (insertions : List (Char × List Sentence)) (n : Nat) (s : Sentence) :
    let r := insertAll insertions
    let rule := lastInserted insertions
    (∀ t, Derives rule n s t ↔ ∃ script : Script, (r.deriveFrom n s script).sentence = t) ∧
    ∀ {σ : Type} [ChoiceSource σ] (source : σ),
      Derives rule n s (r.deriveFrom n s source).sentence ∧
      ∃ picks, DerivesBy rule n s picks (r.deriveFrom n s source).sentence ∧
        Supplies source picks (r.deriveFrom n s source).source ∧
        picks.map Pick.count =
          (List.range n).flatMap fun m => drawRanges rule (r.deriveFrom m s source).sentence := by
  intro r rule
  have hrule : rule = r.given := (given_insertAll insertions).symm
  rw [hrule]
  refine ⟨fun t => ⟨exists_script_deriveFrom, ?_⟩, fun source => ⟨derives_deriveFrom _ _ _ n, ?_⟩⟩
  · rintro ⟨script, rfl⟩
    exact derives_deriveFrom _ _ _ n
  · obtain ⟨picks, h, hsupplies⟩ := exists_derivesBy_deriveFrom r s source n
    exact ⟨picks, h, hsupplies, map_count_of_derivesBy h hsupplies⟩

example :
    let r := insertAll [('B', [['\\', 'B'], ['B']]), ('B', [])]
    (r.deriveFrom 3 ['A', 'B'] (Script.mk [0, 1, 0])).sentence = ['A', '\\', '\\', 'B'] := by
  decide

end Rules

end ProceduralTree
