import ProceduralTree.Proofs.Grammar.Brackets

/-!
# Levels of brackets

Brackets divide a sentence into levels. A level starts behind its opening bracket and goes on behind
every bracket that closes a level inside of it.

## Main definitions

* `Sentence.letters`, `Sentence.turns` — how many steps and turns a text asks for.
* `Sentence.own` — the text on the outermost level.
* `Sentence.trail` — the text on all levels that are open at the end.
* `Sentence.upTo`, `Sentence.behind` — the two parts of a sentence that is cut behind an opening
  bracket.

## Main statements

* `Sentence.closesOnlyOpened_iff` — the levels around a sentence stay open.
* `Sentence.exists_cut` — the place of an opening bracket.
-/

namespace ProceduralTree.Sentence

/-! ## Characters -/

/-- The number of letters of a text. -/
def letters (s : Sentence) : Nat := s.countP fun c => 'A' ≤ c ∧ c ≤ 'Z'

/-- The number of rotation symbols of a text. -/
def turns (s : Sentence) : Nat := s.countP (· ∈ ['+', '-', '/', '\\', '^', '_'])

def IsBracket (c : Char) : Prop := c = '[' ∨ c = ']'

instance (c : Char) : Decidable (IsBracket c) := inferInstanceAs (Decidable (_ ∨ _))

theorem depthBehind?_of_not_isBracket {c : Char} (hc : ¬IsBracket c) (depth : Nat) :
    depthBehind? depth c = some depth := by
  obtain ⟨hopening, hclosing⟩ := not_or.1 hc
  rw [depthBehind?, if_neg hopening, if_neg hclosing]

/-! ## The outermost level -/

/-- The text, brackets aside, that stands outside of all brackets and before the first closing
bracket without a partner, with `depth` brackets open before the sentence. -/
def ownFrom (depth : Nat) : Sentence → Sentence
  | [] => []
  | c :: s =>
    match depthBehind? depth c with
    | none => []
    | some after => if depth = 0 ∧ ¬IsBracket c then c :: ownFrom after s else ownFrom after s

/-- The text on the level that a sentence starts on. -/
def own (s : Sentence) : Sentence := ownFrom 0 s

example : own "A[B[C]+]-D]E".toList = "A-D".toList := by decide

theorem own_cons {c : Char} (hc : ¬IsBracket c) (s : Sentence) : own (c :: s) = c :: own s := by
  rw [own, ownFrom, depthBehind?_of_not_isBracket hc]
  exact if_pos ⟨rfl, hc⟩

theorem ownFrom_succ_cons {c : Char} (hc : ¬IsBracket c) (depth : Nat) (s : Sentence) :
    ownFrom (depth + 1) (c :: s) = ownFrom (depth + 1) s := by
  rw [ownFrom, depthBehind?_of_not_isBracket hc]
  exact if_neg fun h => Nat.succ_ne_zero depth h.1

theorem ownFrom_succ_opening (depth : Nat) (s : Sentence) :
    ownFrom (depth + 1) ('[' :: s) = ownFrom (depth + 2) s := rfl

theorem ownFrom_succ_closing (depth : Nat) (s : Sentence) :
    ownFrom (depth + 1) (']' :: s) = ownFrom depth s := rfl

/-! ## Open levels -/

/-- The number of brackets that a sentence closes without having opened them. -/
def closings : Sentence → Nat
  | [] => 0
  | c :: s => if c = '[' then closings s - 1 else if c = ']' then closings s + 1 else closings s

theorem closings_le_iff {s : Sentence} {depth : Nat} :
    closings s ≤ depth ↔ (depthAfter? depth s).isSome := by
  induction s generalizing depth with
  | nil => simp [closings]
  | cons c s ih =>
    rw [depthAfter?_cons, closings, depthBehind?]
    by_cases hopening : c = '['
    · rw [if_pos hopening, if_pos hopening, Nat.sub_le_iff_le_add, ih]
      rfl
    by_cases hclosing : c = ']'
    · cases depth <;> simp [hclosing, ← ih]
    · simp [hopening, hclosing, ih]

/-- The levels around a sentence stay open exactly if it closes none of them. -/
theorem closesOnlyOpened_iff {s : Sentence} : s.ClosesOnlyOpened ↔ closings s = 0 := by
  rw [ClosesOnlyOpened, ← closings_le_iff, Nat.le_zero]

/-- The text, brackets aside, on all levels that are still open at the end of a sentence: a level
is, if what follows closes no bracket from before. -/
def trail : Sentence → Sentence
  | [] => []
  | c :: s => if ClosesOnlyOpened s ∧ ¬IsBracket c then c :: trail s else trail s

example : trail "A[B]+C[-D[E]F".toList = "A+C-DF".toList := by decide

theorem closings_cons {c : Char} (hc : ¬IsBracket c) (s : Sentence) :
    closings (c :: s) = closings s := by
  obtain ⟨hopening, hclosing⟩ := not_or.1 hc
  rw [closings, if_neg hopening, if_neg hclosing]

theorem trail_cons_of_isBracket {c : Char} (hc : IsBracket c) (s : Sentence) :
    trail (c :: s) = trail s :=
  if_neg fun h => h.2 hc

theorem trail_cons_of_closings_eq_zero {c : Char} (hc : ¬IsBracket c) {s : Sentence}
    (hs : closings s = 0) : trail (c :: s) = c :: trail s :=
  if_pos ⟨closesOnlyOpened_iff.2 hs, hc⟩

theorem trail_cons_of_closings_ne_zero {s : Sentence} (hs : closings s ≠ 0) (c : Char) :
    trail (c :: s) = trail s :=
  if_neg fun h => hs (closesOnlyOpened_iff.1 h.1)

/-! ## Opening brackets -/

/-- The sentence up to its opening bracket `n`, counted from one. -/
def upTo : Nat → Sentence → Sentence
  | 0, _ => []
  | _ + 1, [] => []
  | n + 1, c :: s => c :: upTo (if c = '[' then n else n + 1) s

/-- The sentence behind its opening bracket `n`, counted from one. -/
def behind : Nat → Sentence → Sentence
  | 0, s => s
  | _ + 1, [] => []
  | n + 1, c :: s => behind (if c = '[' then n else n + 1) s

theorem upTo_zero (s : Sentence) : upTo 0 s = [] := by rw [upTo]

theorem behind_zero (s : Sentence) : behind 0 s = s := by rw [behind]

/-- A sentence is cut behind any of its opening brackets. -/
theorem exists_cut {n : Nat} {s : Sentence} (h : n < s.count '[') :
    ∃ u v, s = u ++ '[' :: v ∧ u.count '[' = n ∧ upTo (n + 1) s = u ++ ['['] ∧
      behind (n + 1) s = v := by
  induction s generalizing n with
  | nil => simp at h
  | cons c s ih =>
    by_cases hc : c = '['
    · subst hc
      cases n with
      | zero => exact ⟨[], s, rfl, rfl, by simp [upTo], by simp [behind]⟩
      | succ n =>
        obtain ⟨u, v, hs, hcount, hup, hbehind⟩ := ih (n := n) (by simpa using h)
        exact ⟨'[' :: u, v, by rw [hs, List.cons_append], by simp [hcount],
          by simp [upTo, hup], by simp [behind, hbehind]⟩
    · obtain ⟨u, v, hs, hcount, hup, hbehind⟩ := ih (n := n) (by simpa [hc] using h)
      exact ⟨c :: u, v, by rw [hs, List.cons_append], by simp [hc, hcount],
        by simp [upTo, hc, hup], by simp [behind, hc, hbehind]⟩

end ProceduralTree.Sentence
