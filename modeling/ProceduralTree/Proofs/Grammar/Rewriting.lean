import Mathlib.Data.List.Induction
import ProceduralTree.Grammar.Rules

/-!
# Parallel rewriting

Rules say what a symbol may become. A sentence is rewritten at all of its symbols at once, and each
occurrence may become something else.

## Main definitions

* `Rules.given` — the alternatives of each symbol.
* `Rules.insertAll`, `lastInserted` — the rules that a sequence of insertions leaves, of which the
  refused ones change nothing.
* `Rewrites`, `Derives` — parallel rewriting, in one step and in several.

## Main statements

* `Rules.given_insertAll` — the last insertion that is not refused counts.
* `Derives.forall_mem` — a derivation brings in no symbols but those of alternatives.
-/

namespace ProceduralTree

/-! ## Inserted rules -/

namespace Rules

/-- The alternatives of a symbol; none if it has no rule. -/
def given (r : Rules) (symbol : Char) : List Sentence :=
  (r.alternatives? symbol).elim [] Alternatives.toList

theorem given_eq_nil_iff {r : Rules} {c : Char} : r.given c = [] ↔ r.alternatives? c = none := by
  cases ha : r.alternatives? c <;> simp [given, ha, Alternatives.toList]

theorem exists_of_mem_given {r : Rules} {c : Char} {text : Sentence} (h : text ∈ r.given c) :
    ∃ a, r.alternatives? c = some a ∧ text ∈ a.toList := by
  rw [given] at h
  cases ha : r.alternatives? c with
  | none => simp [ha] at h
  | some a => exact ⟨a, rfl, by simpa [ha] using h⟩

/-- The rules after an insertion, which a refused one leaves as they are. -/
def tryInsert (r : Rules) (insertion : Char × List Sentence) : Rules :=
  match r.insert insertion.1 insertion.2 with
  | .ok r' => r'
  | .error _ => r

/-- The rules after a sequence of insertions into none. -/
def insertAll (insertions : List (Char × List Sentence)) : Rules :=
  insertions.foldl tryInsert empty

end Rules

/-- The alternatives that the last insertion for `symbol` with any alternatives has. -/
def lastInserted (insertions : List (Char × List Sentence)) (symbol : Char) : List Sentence :=
  ((insertions.filter fun (key, texts) => key = symbol ∧ texts ≠ []).getLast?).elim [] Prod.snd

namespace Rules

theorem given_tryInsert (r : Rules) (key symbol : Char) (texts : List Sentence) :
    (r.tryInsert (key, texts)).given symbol =
      if key = symbol ∧ texts ≠ [] then texts else r.given symbol := by
  cases texts with
  | nil => simp [tryInsert, insert, Alternatives.ofList?]
  | cons first others =>
    by_cases h : symbol = key
    · subst h
      simp [tryInsert, insert, Alternatives.ofList?, given, Alternatives.toList]
    · simp [tryInsert, insert, Alternatives.ofList?, given, alternatives?_set_of_ne r h, Ne.symm h]

theorem given_insertAll (insertions : List (Char × List Sentence)) :
    (insertAll insertions).given = lastInserted insertions := by
  funext symbol
  induction insertions using List.reverseRecOn with
  | nil => rfl
  | append_singleton insertions insertion ih =>
    obtain ⟨key, texts⟩ := insertion
    simp only [insertAll, List.foldl_append, List.foldl_cons, List.foldl_nil] at ih ⊢
    rw [given_tryInsert, ih]
    by_cases h : key = symbol ∧ texts ≠ [] <;> simp [lastInserted, List.filter_append, h]

end Rules

/-! ## Rewriting -/

section Relations

variable (rule : Char → List Sentence)

/-- Replaces every symbol that has alternatives by one of them, and keeps the others. -/
inductive Rewrites : Sentence → Sentence → Prop
  | nil : Rewrites [] []
  | keep {c : Char} {s t : Sentence} (ruleless : rule c = []) (rest : Rewrites s t) :
    Rewrites (c :: s) (c :: t)
  | replace {c : Char} {text s t : Sentence} (mem : text ∈ rule c) (rest : Rewrites s t) :
    Rewrites (c :: s) (text ++ t)

/-- A number of rewritings, one after the other. -/
inductive Derives : Nat → Sentence → Sentence → Prop
  | zero {s : Sentence} : Derives 0 s s
  | succ {n : Nat} {s t u : Sentence} (step : Rewrites rule s t) (rest : Derives n t u) :
    Derives (n + 1) s u

end Relations

section Rewriting

variable {rule : Char → List Sentence} {n : Nat} {s t : Sentence}

/-- What holds of the symbols of a sentence and of all alternatives holds after rewriting. -/
theorem Rewrites.forall_mem {P : Char → Prop} (hrule : ∀ c, ∀ text ∈ rule c, ∀ x ∈ text, P x)
    (h : Rewrites rule s t) (hs : ∀ c ∈ s, P c) : ∀ c ∈ t, P c := by
  induction h with
  | nil => exact hs
  | keep _ _ ih =>
    obtain ⟨hc, hs⟩ := List.forall_mem_cons.1 hs
    exact List.forall_mem_cons.2 ⟨hc, ih hs⟩
  | replace mem _ ih =>
    exact List.forall_mem_append.2 ⟨hrule _ _ mem, ih (List.forall_mem_cons.1 hs).2⟩

theorem Derives.forall_mem {P : Char → Prop} (hrule : ∀ c, ∀ text ∈ rule c, ∀ x ∈ text, P x)
    (h : Derives rule n s t) (hs : ∀ c ∈ s, P c) : ∀ c ∈ t, P c := by
  induction h with
  | zero => exact hs
  | succ step _ ih => exact ih (step.forall_mem hrule hs)

end Rewriting

end ProceduralTree
