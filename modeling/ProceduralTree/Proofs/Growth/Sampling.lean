import ProceduralTree.Growth.Generator
import ProceduralTree.Proofs.Random.Uniform
import ProceduralTree.Proofs.Success

/-!
# Sampling from valid settings

The validation asks for ranges whose ends are finite and in order. That is enough for ranges of
words. A range of scalars that is wider than the largest scalar passes as well, and nothing can be
drawn from it.

## Main definitions

* `Settings.IsValid` — what the validation asks of settings.
* `Growing.FailsOnlyWith` — a computation with a single possible error.
* `Settings.CanDraw` — a range that a stream can draw from.
* `Settings.HasNarrowRanges`, `Settings.HasNarrowShares` — what the validation does not ask for.

## Main statements

* `Settings.validate_eq_ok_iff` — settings are accepted exactly if they are valid.
* `Generator.sampleTraits_iterate` — when the traits of one tree after the other can be drawn.
-/

namespace ProceduralTree

/-! ## Valid settings -/

namespace Settings

variable {α : Type} [Scalar α] {s : Settings α}

/-- What the validation asks of settings. -/
structure IsValid (s : Settings α) : Prop where
  initiators : s.initiators ≠ []
  derivations : ¬s.derivations.IsEmpty
  radialSegments : ¬s.radialSegments.IsEmpty ∧ s.radialSegments.low ≠ 0
  segmentCount : s.segmentCount ≠ 0
  range : ∀ trait, IsRange (s.range trait)
  radius : ¬s.radius.low < 0
  leafScaleBudget : Scalar.isFinite s.leafScaleBudget ∧ ¬s.leafScaleBudget < 0
  rules : ∃ rules, s.ruleSet = .ok rules

theorem badRange?_eq_none_iff : s.badRange? = none ↔ ∀ trait, IsRange (s.range trait) := by
  unfold badRange?
  rw [List.find?_eq_none]
  constructor
  · intro h trait
    have := h trait (by cases trait <;> simp)
    simpa using this
  · intro h trait _
    simpa using h trait

theorem guard_eq_ok_iff {ε : Type} {c : Prop} [Decidable c] {e : ε} {rest : Unit → Except ε Unit} :
    (if c then (throw e : Except ε Unit) >>= rest else rest ()) = .ok () ↔
      ¬c ∧ rest () = .ok () := by
  by_cases hc : c
  · simp [hc, throw, throwThe, MonadExceptOf.throw, bind, Except.bind]
  · simp [hc]

theorem discard_mapError_eq_ok_iff {ε ε' β : Type} {f : ε → ε'} {r : Except ε β} :
    discard (r.mapError f) = .ok () ↔ ∃ b, r = .ok b := by
  cases r <;> simp [discard, Except.mapError, Functor.mapConst, Except.map]

theorem validate_eq_ok_iff : s.validate = .ok () ↔ s.IsValid := by
  unfold validate
  simp only [guard_eq_ok_iff]
  cases hbad : s.badRange? with
  | some trait =>
    have hrange : ¬∀ trait, IsRange (s.range trait) := by
      rw [← badRange?_eq_none_iff, hbad]
      nofun
    constructor
    · rintro ⟨-, -, -, -, h⟩
      cases h
    · exact fun h => absurd h.range hrange
  | none =>
    simp only [guard_eq_ok_iff, discard_mapError_eq_ok_iff]
    have hrange := badRange?_eq_none_iff.1 hbad
    constructor
    · rintro ⟨hinitiators, hderivations, hradial, hsegments, hradius, hbudget, hrules⟩
      exact ⟨by simpa using hinitiators, hderivations, not_or.1 hradial, hsegments, hrange, hradius,
        by simpa using hbudget, hrules⟩
    · intro h
      exact ⟨by simpa using h.initiators, h.derivations, not_or.2 h.radialSegments, h.segmentCount,
        h.radius, by simpa using h.leafScaleBudget, h.rules⟩

end Settings

/-! ## The only failure -/

namespace Growing

variable {σ α β : Type}

/-- The computation has no error but the given one. -/
def FailsOnlyWith (e : GrowthError α) (x : Growing σ α β) : Prop := FailsWith (· = e) x

theorem failsOnlyWith_drawIn (d : Option (Draw σ β)) :
    FailsOnlyWith .emptyDraw (drawIn d : Growing σ α β) := failsWith_drawIn fun _ => rfl

end Growing

namespace Settings

open Growing

variable {σ α : Type} [Scalar α] [RandomSource σ α] {s : Settings α} {source rest : σ}
  {traits : Traits α}

theorem failsOnlyWith_sampleTurtle :
    FailsOnlyWith .emptyDraw (s.sampleTurtle : Growing σ α (TurtleTraits α)) := by
  unfold FailsOnlyWith sampleTurtle sampleScalar
  iterate 5
    refine FailsWith.bind (failsOnlyWith_drawIn _) fun _ _ _ _ => ?_
  exact failsWith_pure _

theorem failsOnlyWith_sampleTraits (h : s.initiators ≠ []) :
    FailsOnlyWith .emptyDraw (s.sampleTraits : Growing σ α (Traits α)) := by
  obtain ⟨first, others, hinitiators⟩ := List.exists_cons_of_ne_nil h
  unfold FailsOnlyWith sampleTraits sampleInitiator sampleWord sampleScalar
  rw [hinitiators]
  refine ((failsWith_draw _).bind fun _ _ _ _ => failsWith_pure _).bind fun _ _ _ _ => ?_
  refine FailsWith.bind (failsOnlyWith_drawIn _) fun _ _ _ _ => ?_
  refine FailsWith.bind failsOnlyWith_sampleTurtle fun _ _ _ _ => ?_
  refine FailsWith.bind (failsOnlyWith_drawIn _) fun _ _ _ _ => ?_
  refine FailsWith.bind (failsOnlyWith_drawIn _) fun _ _ _ _ => ?_
  exact failsWith_pure _

/-! ## Ranges that are drawn from -/

/-- Whether the range of a trait can be drawn from. -/
def CanDraw (σ : Type) {α : Type} [RandomSource σ α] (i : Interval α) : Prop :=
  (RandomSource.scalar (σ := σ) i.low i.high).isSome

/-- The value is what the draw takes from some stream. -/
def IsDraw {β : Type} (d : Option (Draw σ β)) (b : β) : Prop :=
  ∃ draw source, d = some draw ∧ (draw source).1 = b

/-- The traits are drawn as the settings say, each of them from its range. -/
structure HasDrawn (σ : Type) [RandomSource σ α] (s : Settings α) (traits : Traits α) : Prop where
  initiator : traits.initiator ∈ s.initiators
  derivations :
    IsDraw (RandomSource.word (σ := σ) s.derivations.low s.derivations.high) traits.derivations
  angle : ∃ degrees, traits.turtle.angle = Scalar.ofDegrees degrees ∧
    IsDraw (RandomSource.scalar (σ := σ) s.angleDegrees.low s.angleDegrees.high) degrees
  stepLength : IsDraw (RandomSource.scalar (σ := σ) s.stepLength.low s.stepLength.high)
    traits.turtle.stepLength
  radius : IsDraw (RandomSource.scalar (σ := σ) s.radius.low s.radius.high) traits.turtle.radius
  lengthDecay :
    IsDraw (RandomSource.scalar (σ := σ) s.lengthDecay.low s.lengthDecay.high)
      traits.turtle.lengthDecay
  radiusDecay :
    IsDraw (RandomSource.scalar (σ := σ) s.radiusDecay.low s.radiusDecay.high)
      traits.turtle.radiusDecay
  radialSegments :
    IsDraw (RandomSource.word (σ := σ) s.radialSegments.low s.radialSegments.high)
      traits.radialSegments
  leafBonus :
    IsDraw (RandomSource.scalar (σ := σ) 0 (s.leafShare traits.derivations)) traits.leafBonus

theorem hasDrawn_of_sampleTraits_yields (h : s.sampleTraits.Yields source traits rest) :
    HasDrawn σ s traits := by
  simp only [sampleTraits, sampleTurtle, sampleScalar, sampleWord, yields_bind, yields_drawIn,
    yields_pure] at h
  obtain ⟨initiator, _, hinitiator, derivations, _, ⟨_, hderivations, hderivations'⟩, turtle, _,
    hturtle, radial, _, ⟨_, hradial, hradial'⟩, bonus, _, ⟨_, hbonus, hbonus'⟩, rfl, -⟩ := h
  obtain ⟨degrees, _, ⟨_, hangle, hangle'⟩, step, _, ⟨_, hstep, hstep'⟩, radius, _,
    ⟨_, hradius, hradius'⟩, length, _, ⟨_, hlength, hlength'⟩, decay, _, ⟨_, hdecay, hdecay'⟩,
    rfl, -⟩ := hturtle
  refine ⟨?_, ⟨_, _, hderivations, by rw [hderivations']⟩,
    ⟨degrees, rfl, _, _, hangle, by rw [hangle']⟩,
    ⟨_, _, hstep, by rw [hstep']⟩, ⟨_, _, hradius, by rw [hradius']⟩,
    ⟨_, _, hlength, by rw [hlength']⟩, ⟨_, _, hdecay, by rw [hdecay']⟩,
    ⟨_, _, hradial, by rw [hradial']⟩, ⟨_, _, hbonus, by rw [hbonus']⟩⟩
  unfold sampleInitiator at hinitiator
  split at hinitiator
  · cases hinitiator
  next first others hcons =>
    simp only [yields_bind, yields_draw, yields_pure] at hinitiator
    obtain ⟨i, _, -, rfl, -⟩ := hinitiator
    rw [hcons]
    exact List.get_mem _ _

theorem canDraw_of_sampleTraits_yields (h : s.sampleTraits.Yields source traits rest)
    (trait : TurtleTrait) : CanDraw σ (s.range trait) := by
  obtain ⟨-, -, ⟨_, -, _, _, hangle, -⟩, ⟨_, _, hstep, -⟩, ⟨_, _, hradius, -⟩, ⟨_, _, hlength, -⟩,
    ⟨_, _, hdecay, -⟩, -, -⟩ := hasDrawn_of_sampleTraits_yields h
  unfold CanDraw
  cases trait <;> simp only [Settings.range, *, Option.isSome_some]

theorem exists_sampleTurtle_yields (h : ∀ trait, CanDraw σ (s.range trait)) (source : σ) :
    ∃ turtle rest, (s.sampleTurtle).Yields source turtle rest := by
  have hdraw (trait : TurtleTrait) := Option.isSome_iff_exists.1 (h trait)
  obtain ⟨angle, hangle⟩ := hdraw .angleDegrees
  obtain ⟨step, hstep⟩ := hdraw .stepLength
  obtain ⟨radius, hradius⟩ := hdraw .radius
  obtain ⟨length, hlength⟩ := hdraw .lengthDecay
  obtain ⟨decay, hdecay⟩ := hdraw .radiusDecay
  simp only [sampleTurtle, sampleScalar, yields_bind, yields_drawIn, yields_pure]
  exact ⟨_, _, _, _, ⟨angle, hangle, rfl⟩, _, _, ⟨step, hstep, rfl⟩, _, _, ⟨radius, hradius, rfl⟩,
    _, _, ⟨length, hlength, rfl⟩, _, _, ⟨decay, hdecay, rfl⟩, rfl, rfl⟩

/-- The traits can be drawn if all their ranges can be drawn from, the last for any number of
derivation steps that may have been drawn before. -/
theorem exists_sampleTraits_yields {steps radial : Draw σ UInt32} (hinitiators : s.initiators ≠ [])
    (hsteps : RandomSource.word s.derivations.low s.derivations.high = some steps)
    (hrange : ∀ trait, CanDraw σ (s.range trait))
    (hradial : RandomSource.word s.radialSegments.low s.radialSegments.high = some radial)
    (hleaf : ∀ source, CanDraw σ ⟨0, s.leafShare (steps source).1⟩) (source : σ) :
    ∃ traits rest, (s.sampleTraits).Yields source traits rest := by
  obtain ⟨first, others, hcons⟩ := List.exists_cons_of_ne_nil hinitiators
  let chosen := RandomSource.initiator (first :: others).length (Nat.zero_lt_succ _) source
  obtain ⟨turtle, between, hturtle⟩ := exists_sampleTurtle_yields hrange (steps chosen.2).2
  obtain ⟨leaf, hleaf⟩ := Option.isSome_iff_exists.1 (hleaf chosen.2)
  simp only [sampleTraits, sampleInitiator, sampleWord, sampleScalar, hcons, yields_bind,
    yields_drawIn, yields_draw, yields_pure]
  exact ⟨_, _, _, _, ⟨_, _, rfl, rfl, rfl⟩, _, _, ⟨steps, hsteps, rfl⟩, turtle, between, hturtle,
    _, _, ⟨radial, hradial, rfl⟩, _, _, ⟨leaf, hleaf, rfl⟩, rfl, rfl⟩

end Settings

/-! ## Ranges that are narrow enough -/

namespace Settings

open Keystream

variable {s : Settings Float}

/-- The ranges of the turtle's traits are narrow enough to be drawn from. -/
def HasNarrowRanges (s : Settings Float) : Prop :=
  ∀ trait, Keystream.IsNarrow (s.range trait).low (s.range trait).high

/-- So are the ranges of the bonus, one for each number of derivation steps. -/
def HasNarrowShares (s : Settings Float) : Prop :=
  ∀ steps, s.derivations.low ≤ steps → steps ≤ s.derivations.high →
    Keystream.IsNarrow 0 (s.leafShare steps)

theorem canDraw_iff {i : Interval Float} (h : IsRange i) :
    CanDraw Keystream i ↔ IsNarrow i.low i.high := by
  rw [CanDraw]
  exact (isSome_scalarIn i.low i.high).trans (and_iff_right (not_not.1 h.2))

theorem canDraw_leafShare (hvalid : s.IsValid) {steps : UInt32}
    (hnarrow : IsNarrow 0 (s.leafShare steps)) : CanDraw Keystream ⟨0, s.leafShare steps⟩ := by
  obtain ⟨hfinite, hbudget⟩ := hvalid.leafScaleBudget
  have hsteps : max steps.toNat 1 < 2 ^ 53 := by
    have := steps.toNat_lt
    omega
  exact (isSome_scalarIn _ _).2
    ⟨zero_le_share (Binary64.zero_le_of_not_lt hfinite hbudget) hsteps hnarrow, hnarrow⟩

theorem exists_sampleTraits_yields_of_isValid (hvalid : s.IsValid) (hranges : s.HasNarrowRanges)
    (hshares : s.HasNarrowShares) (source : Keystream) :
    ∃ traits rest, s.sampleTraits.Yields source traits rest := by
  obtain ⟨steps, hsteps⟩ :=
    Option.isSome_iff_exists.1 ((isSome_wordIn _ _).2 (not_not.1 hvalid.derivations))
  obtain ⟨radial, hradial⟩ :=
    Option.isSome_iff_exists.1 ((isSome_wordIn _ _).2 (not_not.1 hvalid.radialSegments.1))
  refine exists_sampleTraits_yields hvalid.initiators hsteps
    (fun trait => (canDraw_iff (hvalid.range trait)).2 (hranges trait)) hradial ?_ source
  intro source'
  obtain ⟨hlow, hhigh⟩ := mem_of_wordIn hsteps source'
  exact canDraw_leafShare hvalid (hshares _ hlow hhigh)

/-- Nothing is drawn from valid settings with a range that is too wide. -/
theorem outcome_sampleTraits_of_wide (hvalid : s.IsValid) (hwide : ¬s.HasNarrowRanges)
    (source : Keystream) : (s.sampleTraits.outcome source).1 = .error .emptyDraw := by
  rcases h : s.sampleTraits.outcome source with ⟨e | traits, rest⟩
  · rw [failsOnlyWith_sampleTraits hvalid.initiators source e (by rw [h])]
  · refine absurd (fun trait => ?_) hwide
    exact (canDraw_iff (hvalid.range trait)).1 (canDraw_of_sampleTraits_yields h trait)

end Settings

/-! ## One tree after the other -/

namespace Generator

open Settings

theorem sampleTraits_fst (g : Generator Keystream Float) :
    g.sampleTraits.1 = (g.settings.sampleTraits.outcome g.source).1 := rfl

theorem settings_iterate_sampleTraits (g : Generator Keystream Float) (n : Nat) :
    ((fun g => g.sampleTraits.2)^[n] g).settings = g.settings := by
  induction n generalizing g with
  | zero => rfl
  | succ n ih => exact ih g.sampleTraits.2

/-- The traits of any number of trees can be drawn one after the other if all ranges are narrow
enough for that. If a range of the turtle is too wide, no traits can be drawn at all. A range that
is too wide is the only thing that can go wrong. -/
theorem sampleTraits_iterate (g : Generator Keystream Float) (n : Nat) :
    let later := (fun g => g.sampleTraits.2)^[n] g
    (g.settings.HasNarrowRanges → g.settings.HasNarrowShares →
      ∃ traits, later.sampleTraits.1 = .ok traits) ∧
    (¬g.settings.HasNarrowRanges → later.sampleTraits.1 = .error .emptyDraw) ∧
    ∀ e, later.sampleTraits.1 = .error e → e = .emptyDraw := by
  intro later
  have hsettings : later.settings = g.settings := settings_iterate_sampleTraits g n
  have hvalid := validate_eq_ok_iff.1 g.valid
  rw [sampleTraits_fst, hsettings]
  refine ⟨?_, fun hwide => outcome_sampleTraits_of_wide hvalid hwide later.source,
    failsOnlyWith_sampleTraits hvalid.initiators later.source⟩
  intro hranges hshares
  obtain ⟨traits, rest, h⟩ :=
    exists_sampleTraits_yields_of_isValid hvalid hranges hshares later.source
  exact ⟨traits, by rw [h]⟩

/-- The default settings go on and on. -/
theorem sampleTraits_iterate_default :
    let g : Generator Keystream Float := ⟨default, rfl, .ofSeed 42⟩
    ∃ traits, ((fun g => g.sampleTraits.2)^[1000] g).sampleTraits.1 = .ok traits := by
  intro g
  refine (sampleTraits_iterate g 1000).1 ?_ ?_
  · intro trait
    cases trait <;> decide
  · intro steps hlow hhigh
    have hsteps : steps.toNat = 4 ∨ steps.toNat = 5 ∨ steps.toNat = 6 ∨ steps.toNat = 7 := by
      change 4 ≤ steps at hlow
      change steps ≤ 7 at hhigh
      simp only [UInt32.le_iff_toNat_le, UInt32.reduceToNat] at hlow hhigh
      omega
    unfold Settings.leafShare
    rcases hsteps with h | h | h | h <;> rw [h] <;> decide

/-- Settings with angles from the least to the greatest scalar. -/
def wideSettings : Settings Float :=
  let greatest := Float.ofBits 0x7FEFFFFFFFFFFFFF
  { (default : Settings Float) with angleDegrees := ⟨-greatest, greatest⟩ }

/-- Settings may be valid without anything to draw from them. -/
theorem not_forall_exists_sampleTraits :
    ¬∀ (settings : Settings Float) (h : settings.validate = .ok ()) (seed : UInt64) (n : Nat),
      ∃ traits, ((fun g => g.sampleTraits.2)^[n]
        (⟨settings, h, .ofSeed seed⟩ : Generator Keystream Float)).sampleTraits.1 = .ok traits := by
  intro h
  have hvalid : wideSettings.validate = .ok () := rfl
  obtain ⟨traits, htraits⟩ := h wideSettings hvalid 0 0
  have hwide : ¬wideSettings.HasNarrowRanges := by
    intro hnarrow
    exact absurd (hnarrow .angleDegrees) (by decide)
  have hfail := outcome_sampleTraits_of_wide (validate_eq_ok_iff.1 hvalid) hwide (.ofSeed 0)
  rw [sampleTraits_fst] at htraits
  exact absurd (hfail.symm.trans htraits) nofun

end Generator

end ProceduralTree
