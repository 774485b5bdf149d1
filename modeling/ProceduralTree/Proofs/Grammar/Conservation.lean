import ProceduralTree.Proofs.Grammar.Composition

/-!
# What derivations conserve

A derivation takes its symbols from the sentence that it starts from and from the alternatives of
the rules. A symbol without a rule is never lost, but it may be brought in by alternatives. A symbol
that is in none of them stays as often as it was, and in its order.

## Main definitions

* `Rules.texts` — the alternatives of all rules.
* `Rules.IsInert` — a symbol that rules neither replace nor bring in.

## Main statements

* `Rewrites.filter_eq`, `Rewrites.count_le` — what one step conserves.
* `Rules.deriveFrom_conserves` — what a derivation conserves.
-/

namespace ProceduralTree

section Rewriting

variable {rule : Char → List Sentence} {n : Nat} {s t : Sentence}

/-- Symbols that are neither replaced nor brought in keep their order. -/
theorem Rewrites.filter_eq {P : Char → Prop} [DecidablePred P] (hruled : ∀ c, rule c ≠ [] → ¬P c)
    (htexts : ∀ c, ∀ text ∈ rule c, ∀ x ∈ text, ¬P x) (h : Rewrites rule s t) :
    t.filter P = s.filter P := by
  induction h with
  | nil => rfl
  | keep _ _ ih => rw [List.filter_cons, List.filter_cons, ih]
  | @replace c text s t mem _ ih =>
    have hc : ¬P c := hruled c (List.ne_nil_of_mem mem)
    have htext : text.filter P = [] :=
      List.filter_eq_nil_iff.2 fun x hx => by simpa using htexts c text mem x hx
    rw [List.filter_append, htext, List.nil_append, ih, List.filter_cons_of_neg (by simpa using hc)]

theorem Derives.filter_eq {P : Char → Prop} [DecidablePred P] (hruled : ∀ c, rule c ≠ [] → ¬P c)
    (htexts : ∀ c, ∀ text ∈ rule c, ∀ x ∈ text, ¬P x) (h : Derives rule n s t) :
    t.filter P = s.filter P := by
  induction h with
  | zero => rfl
  | succ step _ ih => exact ih.trans (step.filter_eq hruled htexts)

/-- An occurrence of a symbol without a rule is not lost. -/
theorem Rewrites.count_le {c : Char} (hc : rule c = []) (h : Rewrites rule s t) :
    s.count c ≤ t.count c := by
  induction h with
  | nil => exact Nat.le_refl _
  | keep _ _ ih =>
    rw [List.count_cons, List.count_cons]
    exact Nat.add_le_add_right ih _
  | @replace d text s t mem _ ih =>
    have hne : d ≠ c := fun hd => List.ne_nil_of_mem mem (hd ▸ hc)
    rw [List.count_cons_of_ne hne, List.count_append]
    exact Nat.le_add_left_of_le ih

theorem Derives.count_le {c : Char} (hc : rule c = []) (h : Derives rule n s t) :
    s.count c ≤ t.count c := by
  induction h with
  | zero => exact Nat.le_refl _
  | succ step _ ih => exact Nat.le_trans (step.count_le hc) ih

end Rewriting

namespace Rules

/-- The alternatives of all rules. -/
def texts (r : Rules) : List Sentence := r.entries.flatMap fun e => e.2.toList

/-- No rule is for the symbol, and no alternative brings it in. -/
def IsInert (r : Rules) (c : Char) : Prop := r.alternatives? c = none ∧ ∀ text ∈ r.texts, c ∉ text

instance (r : Rules) (c : Char) : Decidable (r.IsInert c) := inferInstanceAs (Decidable (_ ∧ _))

variable {r : Rules}

theorem mem_texts_of_mem_given {c : Char} {text : Sentence} (h : text ∈ r.given c) :
    text ∈ r.texts := by
  obtain ⟨a, ha, htext⟩ := exists_of_mem_given h
  exact List.mem_flatMap.2 ⟨(c, a), r.mem_entries_iff.2 ha, htext⟩

/-- All symbols of a derived sentence are from the sentence it is derived from or from alternatives.
The symbols that are inert are the same as before, in the same order. A symbol without a rule occurs
at least as often as it did after fewer steps. -/
theorem deriveFrom_conserves (r : Rules) {σ : Type} [ChoiceSource σ] (s : Sentence) (source : σ)
    (n : Nat) :
    let t := (r.deriveFrom n s source).sentence
    (∀ c ∈ t, c ∈ s ∨ ∃ text ∈ r.texts, c ∈ text) ∧
    t.filter r.IsInert = s.filter r.IsInert ∧
    ∀ c, r.alternatives? c = none →
      ∀ m ≤ n, (r.deriveFrom m s source).sentence.count c ≤ t.count c := by
  have hderives := derives_deriveFrom r s source n
  refine ⟨?_, ?_, fun c hc m hm => ?_⟩
  · refine hderives.forall_mem (fun c text htext x hx => ?_) fun c hc => .inl hc
    exact .inr ⟨text, mem_texts_of_mem_given htext, hx⟩
  · refine hderives.filter_eq (fun c hc hinert => ?_) fun c text htext x hx hinert => ?_
    · exact hc (given_eq_nil_iff.2 hinert.1)
    · exact hinert.2 text (mem_texts_of_mem_given htext) hx
  · obtain ⟨k, rfl⟩ := Nat.exists_eq_add_of_le hm
    rw [deriveFrom_add]
    exact (derives_deriveFrom r _ _ k).count_le (given_eq_nil_iff.2 hc)

/-- Rules that replace a shoot by nothing, by a shoot with a mark, or by another shoot. -/
def budding : Rules :=
  insertAll [('A', ["".toList, "A+".toList, "B".toList]), ('B', ["B/B".toList])]

/-- The mark that a shoot has brought in remains when the shoot is gone. -/
theorem deriveFrom_conserves_budding :
    let source := Script.mk [1, 0]
    let t := (budding.deriveFrom 2 "X+A-BY".toList source).sentence
    t = "X++-B/B/B/BY".toList ∧
    ('/' ∈ "X+A-BY".toList ∨ ∃ text ∈ budding.texts, '/' ∈ text) ∧
    "X+A-BY".toList.filter budding.IsInert = "X-Y".toList ∧
    t.filter budding.IsInert = "X-Y".toList ∧
    (budding.deriveFrom 1 "X+A-BY".toList source).sentence.count '+' ≤ t.count '+' := by
  intro source t
  have ht : t = "X++-B/B/B/BY".toList := by decide
  have hinert : "X+A-BY".toList.filter budding.IsInert = "X-Y".toList := by decide
  obtain ⟨hmem, hfilter, hcount⟩ := deriveFrom_conserves budding "X+A-BY".toList source 2
  refine ⟨ht, hmem '/' ?_, hinert, hfilter.trans hinert, hcount '+' ?_ 1 ?_⟩
  · decide
  · decide
  · decide

end Rules

end ProceduralTree
