import ProceduralTree.Growth.Assembly
import ProceduralTree.Random.Uniform

/-!
# Generators

A generator grows one tree after the other from the same settings and a single random stream.

## Main definitions

* `Settings.build` — a model of a given skeleton, with a report.
* `Settings.regenerate` — a tree from scratch: its traits, its sentence, its skeleton, its model.
* `Generator` — valid settings with a stream.
-/

namespace ProceduralTree

/-- The outcome of growing one tree: its model, what was reported on the way, and the state from
which the next one goes on. -/
structure Outcome (σ α : Type) (S : Type := MeshStore α) (K : Type := MeshId) where
  result : Except (GrowthError α) (Model α S K)
  events : List Event
  source : σ

namespace Outcome

variable {σ τ α S K : Type}

def mapSource (f : σ → τ) (o : Outcome σ α S K) : Outcome τ α S K :=
  { o with source := f o.source }

/-- Puts the reports of earlier stages in front. -/
def after (o : Outcome σ α S K) (events : List Event) : Outcome σ α S K :=
  { o with events := events ++ o.events }

end Outcome

variable {σ α S K : Type} [Scalar α] [RandomSource σ α] [MeshArena S α K]

namespace Settings

/-- The model of a skeleton, with leaves drawn from the stream. -/
def build (s : Settings α) (traits : Traits α) (root : Branch α) (source : σ) :
    Outcome σ α S K :=
  match (s.assemble traits root).run source with
  | (.error e, source) => ⟨.error e, [], source⟩
  | (.ok m, source) => ⟨.ok m, m.events traits root, source⟩

/-- The tree of given traits. -/
def grow (s : Settings α) (traits : Traits α) (source : σ) : Outcome σ α S K :=
  match s.ruleSet with
  | .error e => ⟨.error (.settings (.rule e)), [], source⟩
  | .ok rules =>
    let d := (LSystem.mk traits.initiator rules).derive traits.derivations.toNat source
    match interpret (.start traits.turtle) d.sentence with
    | .error e => ⟨.error (.turtle e), d.events, d.source⟩
    | .ok i => (s.build traits i.root d.source).after (d.events ++ i.events)

/-- A new tree of freshly drawn traits. -/
def regenerate (s : Settings α) (source : σ) : Outcome σ α S K :=
  match s.sampleTraits.run source with
  | (.error e, source) => ⟨.error e, [], source⟩
  | (.ok traits, source) => s.grow traits source

end Settings

/-- Valid settings and the stream that the next tree is drawn from. -/
structure Generator (σ α : Type) [Scalar α] where
  settings : Settings α
  valid : settings.validate = .ok ()
  source : σ

namespace Generator

def ofSource (settings : Settings α) (source : σ) : Except SettingsError (Generator σ α) :=
  match h : settings.validate with
  | .error e => .error e
  | .ok () => .ok ⟨settings, h, source⟩

def ofSeed (settings : Settings Float) (seed : UInt64) :
    Except SettingsError (Generator Keystream Float) :=
  ofSource settings (.ofSeed seed)

/-- The generator with the rest of its stream. -/
def withSource (g : Generator σ α) (source : σ) : Generator σ α := { g with source }

def sampleTraits (g : Generator σ α) : Except (GrowthError α) (Traits α) × Generator σ α :=
  let (traits, source) := g.settings.sampleTraits.run g.source
  (traits, g.withSource source)

def build (g : Generator σ α) (traits : Traits α) (root : Branch α) :
    Outcome (Generator σ α) α S K :=
  (g.settings.build traits root g.source).mapSource g.withSource

def regenerate (g : Generator σ α) : Outcome (Generator σ α) α S K :=
  (g.settings.regenerate g.source).mapSource g.withSource

end Generator

end ProceduralTree
