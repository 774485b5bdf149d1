import ProceduralTree.Proofs.Skeleton.Reading

/-!
# What a turtle draws on one level

The reading by recursive descent succeeds by one rule for each symbol. What all levels have in
common is proved by induction on these rules.

## Main definitions

* `Turtle.Draws` — the rules by which a turtle draws a level.

## Main statements

* `Turtle.draws_of_readLevel` — recursive descent follows the rules.
* `exists_draws_of_interpret` — a skeleton is what the root draws.
-/

namespace ProceduralTree

variable {α : Type} [Scalar α]

namespace Turtle

/-- Behind the point `last` that was recorded last, the turtle draws `level` when it reads the text.
The text is read up to the ending of the level. -/
inductive Draws : {limit : Nat} → Turtle α → Vec3 α → Sentence → Level α limit → Prop
  | sentence (turtle : Turtle α) (last : Vec3 α) :
    Draws turtle last [] (.close turtle last .sentence)
  | bracket {limit position : Nat} (turtle : Turtle α) (last : Vec3 α) {rest : Sentence}
    (h : rest.length ≤ limit) :
    Draws turtle last (']' :: rest) ((Level.close turtle last (.bracket position rest)).weaken h)
  | step {limit limit' : Nat} {turtle : Turtle α} {last : Vec3 α} {c : Char} {rest : Sentence}
    {level : Level α limit} (hc : Symbol.ofChar? c = some .forward)
    (draws : Draws turtle.advance last rest level) (h : limit ≤ limit') :
    Draws turtle last (c :: rest) (level.weaken h)
  | record {limit limit' : Nat} {turtle : Turtle α} {last : Vec3 α} {c : Char} {t : Turn}
    {rest : Sentence} {level : Level α limit} (hc : Symbol.ofChar? c = some (.turn t))
    (left : turtle.HasLeft last) (draws : Draws (turtle.rotate t) turtle.position rest level)
    (h : limit ≤ limit') :
    Draws turtle last (c :: rest) ((level.addPoint turtle.position).weaken h)
  | turn {limit limit' : Nat} {turtle : Turtle α} {last : Vec3 α} {c : Char} {t : Turn}
    {rest : Sentence} {level : Level α limit} (hc : Symbol.ofChar? c = some (.turn t))
    (stayed : ¬turtle.HasLeft last) (draws : Draws (turtle.rotate t) last rest level)
    (h : limit ≤ limit') :
    Draws turtle last (c :: rest) (level.weaken h)
  | fork {limit limit' limit'' : Nat} {turtle : Turtle α} {last : Vec3 α} {rest : Sentence}
    {inner : Level α limit} {level : Level α limit'}
    (inside : Draws turtle turtle.position rest inner)
    (draws : Draws turtle last inner.ending.rest level) (h : limit' ≤ limit'') :
    Draws turtle last ('[' :: rest) ((level.addFork (inner.branch turtle)).weaken h)

/-- Recursive descent follows the rules. -/
theorem draws_of_readLevel {turtle : Turtle α} {last : Vec3 α} {position : Nat}
    {sentence : Sentence} {level : Level α sentence.length}
    (h : readLevel turtle last position sentence = .ok level) :
    turtle.Draws last sentence level := by
  match sentence with
  | [] =>
    rw [readLevel] at h
    cases h
    exact .sentence turtle last
  | c :: rest =>
    rw [readLevel, ← Symbol.ofChar?_eq_meaning?] at h
    cases hc : Symbol.ofChar? c with
    | none => simp [hc] at h
    | some symbol =>
      rw [hc] at h
      cases symbol with
      | forward =>
        obtain ⟨level', hlevel, ⟨⟩⟩ := bind_eq_ok.1 h
        exact .step hc (draws_of_readLevel hlevel) _
      | turn t =>
        simp only at h
        by_cases hleft : turtle.HasLeft last
        · rw [if_pos hleft, bind_eq_ok] at h
          obtain ⟨level', hlevel, ⟨⟩⟩ := h
          exact .record hc hleft (draws_of_readLevel hlevel) _
        · rw [if_neg hleft, bind_eq_ok] at h
          obtain ⟨level', hlevel, ⟨⟩⟩ := h
          exact .turn hc hleft (draws_of_readLevel hlevel) _
      | openFork =>
        obtain ⟨fork, hfork, h⟩ := bind_eq_ok.1 h
        obtain ⟨level', hlevel, ⟨⟩⟩ := bind_eq_ok.1 h
        have hlt : fork.ending.rest.length < (c :: rest).length := Nat.lt_succ_of_le fork.rest_le
        obtain rfl := Symbol.ofChar?_eq_openFork_iff.1 hc
        exact .fork (draws_of_readLevel hfork) (draws_of_readLevel hlevel) _
      | closeFork =>
        cases h
        obtain rfl := Symbol.ofChar?_eq_closeFork_iff.1 hc
        exact .bracket turtle last _
termination_by sentence.length
decreasing_by all_goals first | exact hlt | exact Nat.lt_succ_self _

end Turtle

theorem exists_draws_of_interpret {turtle : Turtle α} {sentence : Sentence} {i : Interpretation α}
    (h : interpret turtle sentence = .ok i) :
    ∃ level : Level α sentence.length, turtle.Draws turtle.position sentence level ∧
      i.root = level.branch turtle := by
  rw [interpret_eq_readTree, readTree] at h
  obtain ⟨level, hlevel, ⟨⟩⟩ := bind_eq_ok.1 h
  exact ⟨level, Turtle.draws_of_readLevel hlevel, rfl⟩

end ProceduralTree
