import ProceduralTree.Proofs.Growth.Failures
import ProceduralTree.Proofs.Scalar.Decay
import ProceduralTree.Proofs.Skeleton.Radii

/-!
# Radii of trees

The radii of a tree are its first radius after any number of steps of decay. Valid settings have a
first radius that a tube can have, but nothing is said about their decay: a negative factor makes a
radius negative, and one above one may carry it beyond the greatest finite number. Factors between
zero and one do neither.

## Main definitions

* `Settings.DrawsWithin` — a range whose draws lie in it.

## Main statements

* `Settings.exists_skeleton_of_failsToGrow` — a tree fails for one of the radii of its skeleton.
* `Generator.regenerate_iterate_radius` — the radii that trees fail for.
* `Generator.not_forall_regenerate_ne_radius` — valid settings that fail for a radius.
-/

namespace ProceduralTree

open Growing

namespace Settings

section Skeletons

variable {σ α : Type} [Scalar α] [RandomSource σ α] {s : Settings α} {traits : Traits α}

/-- Whatever is drawn from the range lies in it. -/
def DrawsWithin (σ : Type) [RandomSource σ α] (i : Interval α) : Prop :=
  ∀ a, IsDraw (RandomSource.scalar (σ := σ) i.low i.high) a → i.low ≤ a ∧ a ≤ i.high

/-- A tree that fails for a radius has that radius somewhere in its skeleton. -/
theorem exists_skeleton_of_failsToGrow {r : α} (h : FailsToGrow σ s traits (.tube (.radius r))) :
    ¬Tube.IsRadius r ∧ ∃ sentence i, interpret (.start traits.turtle) sentence = .ok i ∧
      ∀ P : α → Prop, i.root.HasRadii P → P r := by
  obtain _ | ⟨hi, h⟩ := h
  cases h with
  | grid h =>
    rw [Settings.grid, TubeGrid.ofCounts] at h
    split at h
    · cases h
    · split at h <;> cases h
  | @tube grid b spline _ _ hb _ hmesh =>
    have hmem : b ∈ _ := (List.mem_filter.1 hb).1
    rw [Branch.reversePreorder_eq_lastFirst] at hmem
    obtain ⟨_, hr, hradius, ⟨⟩⟩ | ⟨-, ⟨⟩⟩ | ⟨_, -, ⟨⟩⟩ := Tube.mesh_eq_error hmesh
    refine ⟨hradius, _, _, hi, fun P hradii => ?_⟩
    obtain rfl | rfl := hr
    · exact (hradii b hmem).1
    · exact (hradii b hmem).2

end Skeletons

/-! ## Drawn radii and factors -/

section Drawn

variable {σ : Type} [RandomSource σ Float] {s : Settings Float} {traits : Traits Float}

/-- A radius that is drawn from valid settings is one that a tube can have. -/
theorem HasDrawn.isRadius (hvalid : s.IsValid) (hwithin : DrawsWithin σ s.radius)
    (h : HasDrawn σ s traits) : Tube.IsRadius traits.turtle.radius := by
  obtain ⟨⟨hlow, hhigh⟩, -⟩ := hvalid.range .radius
  obtain ⟨hle, hge⟩ := hwithin _ h.radius
  exact Binary64.isRadius_of_le (Binary64.zero_le_of_not_lt hlow hvalid.radius) hle hge hhigh

/-- It stays one under a factor that is drawn from a range between zero and one. -/
theorem HasDrawn.isRadius_decay (hwithin : DrawsWithin σ s.radiusDecay)
    (hlow : 0 ≤ s.radiusDecay.low) (hhigh : s.radiusDecay.high ≤ 1) (h : HasDrawn σ s traits)
    {r : Float} (hr : Tube.IsRadius r) : Tube.IsRadius (r * traits.turtle.radiusDecay) := by
  obtain ⟨hle, hge⟩ := hwithin _ h.radiusDecay
  have hnonneg := Binary64.zero_le_of_le hlow hle
  exact Binary64.isRadius_mul hr hnonneg (Binary64.le_trans_of_zero_le hnonneg hge hhigh)

end Drawn

/-! ## Ranges of a single number -/

theorem drawsWithin_self {a : Float} (hwidth : (a - a) / Keystream.topFraction = 0)
    (hsum : 0 + a = a) (hle : a ≤ a) : DrawsWithin Keystream ⟨a, a⟩ := by
  intro b h
  rw [eq_of_isDraw_self hwidth hsum h]
  exact ⟨hle, hle⟩

/-- Settings for trees that get thinner by half at every step. -/
def halving : Settings Float :=
  { (default : Settings Float) with radius := ⟨1, 1⟩, radiusDecay := ⟨0.5, 0.5⟩ }

end Settings

/-! ## One tree after the other -/

namespace Generator

open Settings

/-- A tree of valid settings only fails for a radius that decay has led to: the drawn radius after
at least one step of the drawn decay. It never does if all factors of decay are between zero and
one. -/
theorem regenerate_iterate_radius {σ : Type} [RandomSource σ Float] (g : Generator σ Float)
    (n : Nat) :
    let later := (fun g => g.regenerate.source)^[n] g
    (∀ r, later.regenerate.result = .error (.tube (.radius r)) → ¬Tube.IsRadius r ∧
      ∃ traits rest k, g.settings.sampleTraits.Yields later.source traits rest ∧
        r = (· * traits.turtle.radiusDecay)^[k] traits.turtle.radius ∧
        (DrawsWithin σ g.settings.radius → k ≠ 0)) ∧
    (DrawsWithin σ g.settings.radius → DrawsWithin σ g.settings.radiusDecay →
      0 ≤ g.settings.radiusDecay.low → g.settings.radiusDecay.high ≤ 1 →
      ∀ r, later.regenerate.result ≠ .error (.tube (.radius r))) := by
  intro later
  have hvalid := validate_eq_ok_iff.1 g.valid
  have hfails {r : Float} (h : later.regenerate.result = .error (.tube (.radius r))) :
      ∃ traits rest, g.settings.sampleTraits.Yields later.source traits rest ∧
        FailsToGrow σ g.settings traits (.tube (.radius r)) := by
    rw [result_regenerate, settings_iterate_regenerate] at h
    obtain ⟨⟨⟩, -⟩ | h := of_regenerate_eq_error hvalid h
    exact h
  constructor
  · intro r h
    obtain ⟨traits, rest, htraits, h⟩ := hfails h
    obtain ⟨hradius, sentence, i, hi, hmem⟩ := exists_skeleton_of_failsToGrow h
    obtain ⟨k, rfl⟩ := hmem _ (exists_iterate_of_interpret hi)
    refine ⟨hradius, traits, rest, k, htraits, rfl, ?_⟩
    rintro hwithin rfl
    exact hradius ((hasDrawn_of_sampleTraits_yields htraits).isRadius hvalid hwithin)
  · intro hwithin hwithin' hlow hhigh r h
    obtain ⟨traits, rest, htraits, h⟩ := hfails h
    obtain ⟨hradius, sentence, i, hi, hmem⟩ := exists_skeleton_of_failsToGrow h
    have hdrawn := hasDrawn_of_sampleTraits_yields htraits
    refine hradius (hmem Tube.IsRadius (hasRadii_of_interpret ?_ ?_ hi))
    · exact hdrawn.isRadius hvalid hwithin
    · exact fun _ hr => hdrawn.isRadius_decay hwithin' hlow hhigh hr

/-- Trees that get thinner by half never fail for a radius, and trees that wither do so after at
least one step. -/
theorem regenerate_iterate_radius_halving :
    let g : Generator Keystream Float := ⟨halving, rfl, .ofSeed 42⟩
    let g' : Generator Keystream Float :=
      ⟨.withering, validate_eq_ok_iff.2 isValid_withering_float, .ofSeed 42⟩
    (DrawsWithin Keystream halving.radius ∧ DrawsWithin Keystream halving.radiusDecay ∧
      ∀ r, ((fun g => g.regenerate.source)^[1000] g).regenerate.result ≠
        .error (.tube (.radius r))) ∧
    (g'.regenerate.result = .error (.tube (.radius (-1))) ∧
      ∃ traits rest k, g'.settings.sampleTraits.Yields g'.source traits rest ∧
        -1 = (· * traits.turtle.radiusDecay)^[k] traits.turtle.radius ∧ k ≠ 0) := by
  intro g g'
  constructor
  · have hradius : DrawsWithin Keystream halving.radius := drawsWithin_self rfl rfl (by decide)
    have hdecay : DrawsWithin Keystream halving.radiusDecay := drawsWithin_self rfl rfl (by decide)
    refine ⟨hradius, hdecay, ?_⟩
    exact (regenerate_iterate_radius g 1000).2 hradius hdecay (by decide) (by decide)
  · have hresult : g'.regenerate.result = .error (.tube (.radius (-1))) := by
      rw [result_regenerate]
      exact regenerate_withering_float _
    obtain ⟨-, traits, rest, k, htraits, hr, hk⟩ := (regenerate_iterate_radius g' 0).1 (-1) hresult
    exact ⟨hresult, traits, rest, k, htraits, hr, hk (drawsWithin_self rfl rfl (by decide))⟩

/-- Validation does not rule out that a radius turns negative. -/
theorem not_forall_regenerate_ne_radius :
    ¬∀ (settings : Settings Float) (h : settings.validate = .ok ()) (seed : UInt64) (n : Nat)
      (r : Float), ((fun g => g.regenerate.source)^[n]
        (⟨settings, h, .ofSeed seed⟩ : Generator Keystream Float)).regenerate.result ≠
          .error (.tube (.radius r)) := by
  intro h
  have hvalid := validate_eq_ok_iff.2 isValid_withering_float
  refine h .withering hvalid 0 0 (-1) ?_
  rw [Function.iterate_zero_apply, result_regenerate]
  exact regenerate_withering_float _

end Generator

end ProceduralTree
