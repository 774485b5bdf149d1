import Mathlib.Order.Bounds.Basic
import ProceduralTree.Proofs.Grammar.Rewriting

/-!
# Brackets of sentences

A count of the open brackets tells whether the brackets of a sentence match. Rules that spare the
brackets and whose alternatives are balanced do not change that count: wherever a sentence is
rewritten, the brackets around are as deep as before.

## Main definitions

* `Sentence.depthAfter?` — how many brackets are open behind a sentence.
* `Sentence.Balanced` — every bracket has a partner.
* `Sentence.reach` — the part of a sentence before a bracket that closes nothing.
* `Sentence.deepest` — how many brackets are open at most.

## Main statements

* `Sentence.isSome_depthAfter?_iff` — when a sentence closes no bracket that has no partner.
* `Sentence.depthAfter?_add` — brackets that stay open around a sentence do not matter to it.
* `Derives.depthAfter?_eq` — derivations keep the depth of brackets.
-/

namespace ProceduralTree

/-- The number of open brackets behind one more symbol. There is none behind a closing bracket that
has no partner. -/
def depthBehind? (depth : Nat) (c : Char) : Option Nat :=
  if c = '[' then some (depth + 1)
  else if c = ']' then if depth = 0 then none else some (depth - 1)
  else some depth

namespace Sentence

/-- The number of open brackets behind a sentence with `depth` of them open before it. There is none
if the sentence closes a bracket that has no partner. -/
def depthAfter? (depth : Nat) (s : Sentence) : Option Nat := s.foldlM depthBehind? depth

/-- Every bracket has a partner. -/
def Balanced (s : Sentence) : Prop := depthAfter? 0 s = some 0

instance (s : Sentence) : Decidable s.Balanced := inferInstanceAs (Decidable (_ = _))

/-- No closing bracket is without a partner, while opening ones may be. -/
def ClosesOnlyOpened (s : Sentence) : Prop := (depthAfter? 0 s).isSome

instance (s : Sentence) : Decidable s.ClosesOnlyOpened := inferInstanceAs (Decidable (_ = _))

@[simp] theorem depthAfter?_nil (depth : Nat) : depthAfter? depth [] = some depth := rfl

theorem depthAfter?_cons (depth : Nat) (c : Char) (s : Sentence) :
    depthAfter? depth (c :: s) = (depthBehind? depth c).bind (depthAfter? · s) := rfl

theorem depthAfter?_append (depth : Nat) (s t : Sentence) :
    depthAfter? depth (s ++ t) = (depthAfter? depth s).bind (depthAfter? · t) :=
  List.foldlM_append

/-- The part of a sentence before the first closing bracket that has no partner, with `depth` of
them open before the sentence. -/
def reachFrom (depth : Nat) : Sentence → Sentence
  | [] => []
  | c :: s =>
    match depthBehind? depth c with
    | none => []
    | some after => c :: reachFrom after s

/-- The part of a sentence before the first closing bracket that has no partner. -/
def reach (s : Sentence) : Sentence := reachFrom 0 s

example : reach "A[B]+]C[".toList = "A[B]+".toList := by decide

/-- The largest number of brackets that are open at once while a sentence is read, with `depth` of
them open before it. -/
def deepest (depth : Nat) : Sentence → Nat
  | [] => depth
  | c :: s =>
    match depthBehind? depth c with
    | none => depth
    | some after => max depth (deepest after s)

theorem le_deepest (depth : Nat) (s : Sentence) : depth ≤ deepest depth s := by
  cases s with
  | nil => exact Nat.le_refl depth
  | cons c s =>
    rw [deepest]
    split
    · exact Nat.le_refl depth
    · exact Nat.le_max_left depth _

theorem exists_prefix_cons_iff {depth d : Nat} {c : Char} {s : Sentence} :
    (∃ u, u <+: c :: s ∧ depthAfter? depth u = some d) ↔
      d = depth ∨ ∃ after, depthBehind? depth c = some after ∧
        ∃ u, u <+: s ∧ depthAfter? after u = some d := by
  constructor
  · rintro ⟨u, hu, hd⟩
    obtain rfl | ⟨t, rfl, ht⟩ := List.prefix_cons_iff.1 hu
    · exact .inl (Option.some.inj hd).symm
    · obtain ⟨after, hc, hd⟩ := Option.bind_eq_some_iff.1 hd
      exact .inr ⟨after, hc, t, ht, hd⟩
  · rintro (rfl | ⟨after, hc, t, ht, hd⟩)
    · exact ⟨[], List.nil_prefix, rfl⟩
    · refine ⟨c :: t, List.prefix_cons_iff.2 (.inr ⟨t, rfl, ht⟩), ?_⟩
      rwa [depthAfter?_cons, hc]

/-- The largest depth is the greatest of those behind the parts from the start of the sentence. -/
theorem isGreatest_deepest (depth : Nat) (s : Sentence) :
    IsGreatest {d | ∃ u, u <+: s ∧ depthAfter? depth u = some d} (deepest depth s) := by
  induction s generalizing depth with
  | nil => simp [deepest, eq_comm, isGreatest_singleton]
  | cons c s ih =>
    simp only [exists_prefix_cons_iff]
    cases hc : depthBehind? depth c with
    | none => simp [deepest, hc, isGreatest_singleton]
    | some after =>
      simp only [deepest, hc, Option.some.injEq, exists_eq_left']
      exact (ih after).insert depth

theorem depthBehind?_add {depth after : Nat} {c : Char} (h : depthBehind? depth c = some after)
    (more : Nat) : depthBehind? (depth + more) c = some (after + more) := by
  unfold depthBehind? at h ⊢
  split_ifs at h ⊢ <;> simp only [Option.some.injEq] at h ⊢ <;> omega

/-- A sentence may be read to its end exactly if no part of it from the start closes more brackets
than were open or are opened in it. -/
theorem isSome_depthAfter?_iff {depth : Nat} {s : Sentence} :
    (depthAfter? depth s).isSome ↔
      ∀ k, (s.take k).count ']' ≤ depth + (s.take k).count '[' := by
  induction s generalizing depth with
  | nil => simp
  | cons c s ih =>
    rw [depthAfter?_cons, ← Nat.and_forall_add_one]
    simp only [List.take_zero, List.count_nil, Nat.zero_le, true_and, List.take_succ_cons]
    by_cases hopening : c = '['
    · subst hopening
      simp [depthBehind?, ih, Nat.add_right_comm, Nat.add_assoc]
    by_cases hclosing : c = ']'
    · subst hclosing
      cases depth with
      | zero =>
        -- The bracket by itself is a part that closes too much.
        have hfirst : ¬∀ k, (']' :: s.take k).count ']' ≤ 0 + (']' :: s.take k).count '[' :=
          fun h => by simpa using h 0
        simpa [depthBehind?] using hfirst
      | succ depth => simp [depthBehind?, ih, Nat.add_right_comm]
    · simp [depthBehind?, hopening, hclosing, ih]

/-- A sentence that closes no more than it may does the same inside further brackets. -/
theorem depthAfter?_add {depth after : Nat} {s : Sentence} (h : depthAfter? depth s = some after)
    (more : Nat) : depthAfter? (depth + more) s = some (after + more) := by
  induction s generalizing depth with
  | nil =>
    cases h
    rfl
  | cons c s ih =>
    obtain ⟨between, hc, hs⟩ := Option.bind_eq_some_iff.1 h
    rw [depthAfter?_cons, depthBehind?_add hc more, Option.bind_some, ih hs]

theorem Balanced.depthAfter?_eq {s : Sentence} (h : s.Balanced) (depth : Nat) :
    depthAfter? depth s = some depth := by
  have := depthAfter?_add h depth
  rwa [Nat.zero_add] at this

/-- A balanced sentence between brackets leaves the depth as it is. -/
theorem Balanced.depthAfter?_bracketed {s : Sentence} (h : s.Balanced) (depth : Nat) :
    depthAfter? depth ('[' :: (s ++ [']'])) = some depth := by
  change (depthAfter? (depth + 1) (s ++ [']'])) = some depth
  rw [depthAfter?_append, h.depthAfter?_eq]
  rfl

end Sentence

/-! ## Rewriting inside brackets -/

/-- The rules leave brackets as they are, and no alternative opens or closes one without its
partner. -/
structure SparesBrackets (rule : Char → List Sentence) : Prop where
  opening : rule '[' = []
  closing : rule ']' = []
  balanced : ∀ c, ∀ text ∈ rule c, text.Balanced

namespace SparesBrackets

open Sentence

variable {rule : Char → List Sentence} {s t : Sentence}

theorem depthBehind?_eq (hrule : SparesBrackets rule) {c : Char} (hc : rule c ≠ [])
    (depth : Nat) : depthBehind? depth c = some depth := by
  have hopening : c ≠ '[' := fun h => hc (h ▸ hrule.opening)
  have hclosing : c ≠ ']' := fun h => hc (h ▸ hrule.closing)
  rw [depthBehind?, if_neg hopening, if_neg hclosing]

theorem depthAfter?_of_rewrites (hrule : SparesBrackets rule) (h : Rewrites rule s t)
    (depth : Nat) : depthAfter? depth t = depthAfter? depth s := by
  induction h generalizing depth with
  | nil => rfl
  | keep _ _ ih => simp only [depthAfter?_cons, ih]
  | replace mem _ ih =>
    rw [depthAfter?_append, (hrule.balanced _ _ mem).depthAfter?_eq, depthAfter?_cons,
      hrule.depthBehind?_eq (List.ne_nil_of_mem mem), Option.bind_some, Option.bind_some, ih]

/-- A derivation keeps the depth of the brackets behind its sentence. -/
theorem depthAfter?_of_derives {n : Nat} (hrule : SparesBrackets rule) (h : Derives rule n s t)
    (depth : Nat) : depthAfter? depth t = depthAfter? depth s := by
  induction h with
  | zero => rfl
  | succ step _ ih => rw [ih, hrule.depthAfter?_of_rewrites step]

theorem balanced_of_derives {n : Nat} (hrule : SparesBrackets rule) (h : Derives rule n s t)
    (hs : s.Balanced) : t.Balanced := by
  rw [Sentence.Balanced, hrule.depthAfter?_of_derives h]
  exact hs

end SparesBrackets

end ProceduralTree
