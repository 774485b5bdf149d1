import ProceduralTree.Grammar.Rules

/-!
# Derivations

One step of a stochastic L-system replaces all symbols of a sentence at once: a symbol with a rule
by one of its alternatives, drawn anew for each occurrence from left to right, and any other symbol
by itself.

## Main definitions

* `Rules.expand` — one step.
* `Rules.deriveFrom` — a number of steps, with the length of every sentence on the way.
* `LSystem` — rules with the sentence that derivations start from.
-/

namespace ProceduralTree

variable {σ : Type} [ChoiceSource σ]

namespace Rules

/-- What stands for one occurrence of a symbol after a step. -/
def replacement (r : Rules) (symbol : Char) (source : σ) : Sentence × σ :=
  match r.alternatives? symbol with
  | none => ([symbol], source)
  | some a => a.choose source

/-- Expands a sentence behind an already expanded part, which is held in reverse. -/
def expandOnto (r : Rules) (done : List Char) : Sentence → σ → Sentence × σ
  | [], source => (done.reverse, source)
  | symbol :: rest, source =>
    let (text, source) := r.replacement symbol source
    r.expandOnto (text.reverse ++ done) rest source

/-- One step: every symbol is replaced at once. -/
def expand (r : Rules) (sentence : Sentence) (source : σ) : Sentence × σ :=
  r.expandOnto [] sentence source

theorem expandOnto_eq (r : Rules) (done : List Char) (sentence : Sentence) (source : σ) :
    r.expandOnto done sentence source =
      (done.reverse ++ (r.expand sentence source).1, (r.expand sentence source).2) := by
  induction sentence generalizing done source with
  | nil => simp [expand, expandOnto]
  | cons symbol rest ih =>
    simp only [expand, expandOnto]
    rw [ih, ih (_ ++ [])]
    simp

@[simp] theorem expand_nil (r : Rules) (source : σ) : r.expand [] source = ([], source) := rfl

/-- The first symbol is replaced first, and the rest draws from what is left of the stream. -/
theorem expand_cons (r : Rules) (symbol : Char) (rest : Sentence) (source : σ) :
    r.expand (symbol :: rest) source =
      ((r.replacement symbol source).1 ++ (r.expand rest (r.replacement symbol source).2).1,
        (r.expand rest (r.replacement symbol source).2).2) := by
  simp only [expand, expandOnto]
  rw [expandOnto_eq]
  simp [expand]

end Rules

/-- The outcome of a derivation. -/
structure Derivation (σ : Type) where
  sentence : Sentence
  /-- The byte length of the sentence after each step. -/
  lengths : List Nat
  source : σ

namespace Rules

/-- Expands `sentence` for the given number of steps. -/
def deriveFrom (r : Rules) : Nat → Sentence → σ → Derivation σ
  | 0, sentence, source => ⟨sentence, [], source⟩
  | steps + 1, sentence, source =>
    let (next, source) := r.expand sentence source
    let rest := r.deriveFrom steps next source
    { rest with lengths := next.byteLength :: rest.lengths }

end Rules

/-- Rules and the sentence they are first applied to. -/
structure LSystem where
  initiator : Sentence
  rules : Rules

def LSystem.derive (l : LSystem) (steps : Nat) (source : σ) : Derivation σ :=
  l.rules.deriveFrom steps l.initiator source

end ProceduralTree
