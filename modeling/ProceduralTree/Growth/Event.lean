import ProceduralTree.Grammar.Derivation
import ProceduralTree.Skeleton.Interpretation

/-!
# Events of growth

What a tree reports while it grows, and the line of log that each report makes.
-/

namespace ProceduralTree

inductive Event where
  /-- A derivation step was made; the length is that of the sentence after it, in bytes. -/
  | derived (step length : Nat)
  /-- A closing bracket without an opening one ended the reading of a sentence. -/
  | unmatchedBracket (position : Nat)
  | interpreted (branches depth : Nat)
  | skippedDegenerate (count : Nat)
  | grown (initiator : Sentence) (derivations meshes parts : Nat)
deriving DecidableEq, Repr

namespace Event

def line : Event → String
  | derived step length => s!"DEBUG derived sentence iteration={step} length={length}"
  | unmatchedBracket position => s!"WARN unmatched ']' ends interpretation position={position}"
  | interpreted branches depth =>
    s!"DEBUG interpreted sentence branches={branches} depth={depth}"
  | skippedDegenerate count => s!"WARN skipped degenerate branches skipped={count}"
  | grown initiator derivations meshes parts =>
    "INFO regenerated tree axiom=" ++ String.ofList initiator
      ++ s!" derivations={derivations} meshes={meshes} objects={parts}"

end Event

def Derivation.events {σ : Type} (d : Derivation σ) : List Event :=
  d.lengths.mapIdx .derived

def Interpretation.events {α : Type} (i : Interpretation α) : List Event :=
  (i.unmatched.map Event.unmatchedBracket).toList
    ++ [.interpreted (i.root.forkCount + 1) i.root.depth]

end ProceduralTree
