import ProceduralTree.Proofs.Growth.Decoration
import ProceduralTree.Proofs.Growth.Failures

/-!
# Samples that the assembly takes

For each tube that is made, the assembly takes four samples: the bonus to the size of the leaf and
the three angles of its turn. It takes none for a branch that carries no curve, and none for the
branch whose tube fails, with which it ends. So the tubes alone say what is left of the stream,
whether or not the assembly succeeds, and the next assembly goes on from there.

## Main definitions

* `Sample.behind` — what a sample leaves of a stream.
* `Growing.Takes` — the samples that a computation takes if it succeeds.
* `Settings.bark` — the tube of a branch by itself.
* `Settings.finished`, `Settings.samples` — the branches that an assembly gets done, and what it
  takes for them.

## Main statements

* `Growing.Takes.bind`, `Growing.takes_foldlM` — the samples of steps one after the other.
* `Settings.takes_addBranch` — the samples of one branch.
* `Settings.throws_addBranch_iff` — the failures of one branch.
* `Generator.build_samples` — failures and samples of all assemblies of a generator.
-/

namespace ProceduralTree

open Growing

variable {σ α β γ S K : Type}

/-- A draw from a range. -/
inductive Sample (α : Type) where
  | scalar (low high : α)
  | angle

namespace Sample

variable [RandomSource σ α]

/-- The stream behind a sample. Nothing is taken for a range that cannot be drawn from. -/
def behind (source : σ) : Sample α → σ
  | scalar low high =>
    match RandomSource.scalar low high with
    | none => source
    | some draw => (draw source).2
  | angle => (RandomSource.angle source).2

/-- The stream behind samples that are taken one after the other. -/
def behindAll (source : σ) (samples : List (Sample α)) : σ := samples.foldl behind source

theorem behindAll_append (source : σ) (samples samples' : List (Sample α)) :
    behindAll source (samples ++ samples') = behindAll (behindAll source samples) samples' :=
  List.foldl_append

end Sample

/-! ## Samples of computations -/

namespace Growing

open Sample

variable [RandomSource σ α] {samples samples' : List (Sample α)}

/-- If the computation succeeds, it has taken the given samples. -/
def Takes (x : Growing σ α β) (samples : List (Sample α)) : Prop :=
  ∀ source b rest, x.Yields source b rest → rest = behindAll source samples

theorem takes_pure (b : β) : Takes (pure b : Growing σ α β) [] := by
  intro source b' rest h
  exact (yields_pure.1 h).2.symm

theorem takes_ofExcept {ε : Type} (cause : ε → GrowthError α) (r : Except ε β) :
    Takes (ofExcept cause r : Growing σ α β) [] := by
  intro source b rest h
  exact (yields_ofExcept.1 h).2.symm

theorem takes_angle : Takes (draw RandomSource.angle : Growing σ α α) [.angle] := by
  intro source b rest h
  exact congrArg Prod.snd (yields_draw.1 h).symm

theorem takes_scalar (low high : α) :
    Takes (drawIn (RandomSource.scalar low high) : Growing σ α α) [.scalar low high] := by
  intro source b rest h
  obtain ⟨draw, hdraw, hrest⟩ := yields_drawIn.1 h
  simp [behindAll, behind, hdraw, hrest]

theorem Takes.bind {x : Growing σ α β} {f : β → Growing σ α γ} (hx : x.Takes samples)
    (hf : ∀ b, (f b).Takes samples') : (x >>= f).Takes (samples ++ samples') := by
  intro source c rest h
  obtain ⟨b, between, hb, hc⟩ := yields_bind.1 h
  rw [hf b between c rest hc, hx source b between hb, behindAll_append]

theorem takes_foldlM {ι : Type} {f : β → ι → Growing σ α β} {samples : ι → List (Sample α)}
    (h : ∀ b i, (f b i).Takes (samples i)) (items : List ι) (b : β) :
    (items.foldlM f b).Takes (items.flatMap samples) := by
  induction items generalizing b with
  | nil => exact takes_pure b
  | cons i items ih =>
    rw [List.foldlM_cons, List.flatMap_cons]
    exact (h b i).bind ih

end Growing

variable [Scalar α]

/-- The samples for one leaf: the bonus to its size, then the angles of its turn. -/
def Traits.leafSamples (traits : Traits α) : List (Sample α) :=
  [.scalar 0 traits.leafBonus, .angle, .angle, .angle]

/-- Tubes have rings, and the size of a leaf can be drawn. -/
def Traits.IsBuildable (σ : Type) [RandomSource σ α] (traits : Traits α) : Prop :=
  traits.radialSegments ≠ 0 ∧ Settings.CanDraw σ ⟨0, traits.leafBonus⟩

namespace Settings

/-- The tube of a branch by itself. -/
def bark (s : Settings α) (traits : Traits α) (b : Branch α) :
    Except (GrowthError α) (Mesh α) := do
  let grid ← (s.grid traits).mapError .tube
  let spline ← b.spline.mapError .curve
  (s.tube grid b spline.curve).mesh.mapError .tube

/-- The branches that an assembly gets done: all that carry a curve, the last fork first, up to the
first without a tube. -/
def finished (s : Settings α) (traits : Traits α) (root : Branch α) : List (Branch α) :=
  (root.lastFirst.filter fun b => ¬b.IsDegenerate).takeWhile fun b => (s.bark traits b).isOk

/-- The samples that an assembly takes. -/
def samples (s : Settings α) (traits : Traits α) (root : Branch α) : List (Sample α) :=
  (s.finished traits root).flatMap fun _ => traits.leafSamples

theorem length_samples (s : Settings α) (traits : Traits α) (root : Branch α) :
    (s.samples traits root).length = 4 * (s.finished traits root).length := by
  rw [samples, List.length_flatMap]
  simp [Traits.leafSamples, Nat.mul_comm]

variable {s : Settings α} {traits : Traits α} {grid : TubeGrid} {b : Branch α} {root : Branch α}
  {spline : Spline α}

theorem bark_eq (hgrid : s.grid traits = .ok grid) (hspline : b.spline = .ok spline) :
    s.bark traits b = (s.tube grid b spline.curve).mesh.mapError .tube := by
  rw [bark, hgrid, hspline]
  rfl

variable [RandomSource σ α] [MeshArena S α K] {source rest : σ} {m m' : Model α S K}
  {e : GrowthError α}

/-! ## One branch -/

theorem takes_leafPlacement (traits : Traits α) (b : Branch α) (curve : Curve α) :
    (leafPlacement traits b curve : Growing σ α _).Takes traits.leafSamples := by
  unfold leafPlacement
  refine (takes_scalar _ _).bind fun _ => ?_
  refine takes_angle.bind fun _ => takes_angle.bind fun _ => takes_angle.bind fun _ => ?_
  exact (takes_ofExcept _ _).bind fun _ => takes_pure _

theorem takes_addBranch (m : Model α S K) (b : Branch α) :
    (s.addBranch traits grid m b : Growing σ α _).Takes traits.leafSamples := by
  unfold addBranch
  refine (takes_ofExcept _ _).bind fun spline => (takes_ofExcept _ _).bind fun mesh => ?_
  exact (takes_leafPlacement traits b spline.curve).bind fun _ => takes_pure _

theorem exists_bark_of_addBranch_yields (hgrid : s.grid traits = .ok grid)
    (h : (s.addBranch traits grid m b).Yields source m' rest) :
    ∃ mesh, s.bark traits b = .ok mesh := by
  obtain ⟨spline, mesh, -, hspline, hmesh, -⟩ := addBranch_yields.1 h
  rw [bark_eq hgrid hspline, hmesh]
  exact ⟨mesh, rfl⟩

/-- A branch that carries a curve fails for its tube alone, and before any sample is taken. -/
theorem throws_addBranch_iff (hgrid : s.grid traits = .ok grid)
    (hbonus : CanDraw σ ⟨0, traits.leafBonus⟩) (hb : ¬b.IsDegenerate) :
    (s.addBranch traits grid m b).Throws source e rest ↔
      s.bark traits b = .error e ∧ source = rest := by
  obtain ⟨spline, hspline, -⟩ := Branch.exists_spline hb
  rw [bark_eq hgrid hspline, addBranch, hspline, ofExcept_ok_bind]
  cases hmesh : (s.tube grid b spline.curve).mesh with
  | error cause => simp [throws_ofExcept_bind, Except.mapError]
  | ok mesh =>
    -- A branch with a tube has a tip, so that its leaf finds a place.
    obtain ⟨tip, htip⟩ := exists_curve_one (counts_of_grid_eq_ok hgrid).2.2 hmesh
    obtain ⟨draw, hdraw⟩ := Option.isSome_iff_exists.1 hbonus
    obtain ⟨placement, between, hplacement⟩ :=
      exists_leafPlacement_yields (b := b) hdraw htip source
    rw [ofExcept_ok_bind]
    constructor
    · intro h
      obtain h | ⟨_, _, -, h⟩ := throws_bind.1 h
      · exact absurd hplacement h.not_yields
      · cases h
    · rintro ⟨herror, -⟩
      cases herror

/-! ## All branches -/

theorem exists_bark_of_foldlM_yields (hgrid : s.grid traits = .ok grid) {branches : List (Branch α)}
    (h : (branches.foldlM (s.addBranch traits grid) m).Yields source m' rest) :
    ∀ b ∈ branches, ∃ mesh, s.bark traits b = .ok mesh := by
  have hdone := yields_foldlM
    (motive := fun done _ => ∀ b ∈ done, ∃ mesh, s.bark traits b = .ok mesh)
    (fun done b m source m' rest hdone hstep => ?_) [] (List.forall_mem_nil _) h
  · simpa using hdone
  · rw [List.forall_mem_append, List.forall_mem_singleton]
    exact ⟨hdone, exists_bark_of_addBranch_yields hgrid hstep⟩

/-- A pass over branches that carry curves fails at the first of them without a tube, with the
samples taken for those before it. -/
theorem exists_of_foldlM_throws (hgrid : s.grid traits = .ok grid)
    (hbonus : CanDraw σ ⟨0, traits.leafBonus⟩) {branches : List (Branch α)}
    (hbranches : ∀ b ∈ branches, ¬b.IsDegenerate)
    (h : (branches.foldlM (s.addBranch traits grid) m).Throws source e rest) :
    ∃ done b others, branches = done ++ b :: others ∧
      (∀ d ∈ done, ∃ mesh, s.bark traits d = .ok mesh) ∧ s.bark traits b = .error e ∧
      rest = Sample.behindAll source (done.flatMap fun _ => traits.leafSamples) := by
  obtain ⟨done, b, others, m', between, rfl, hdone, hthrows⟩ := exists_of_throws_foldlM h
  obtain ⟨herror, rfl⟩ := (throws_addBranch_iff hgrid hbonus (hbranches b (by simp))).1 hthrows
  exact ⟨done, b, others, rfl, exists_bark_of_foldlM_yields hgrid hdone, herror,
    takes_foldlM (fun m b => takes_addBranch m b) done m source m' between hdone⟩

theorem exists_bark_of_mem_finished (hb : b ∈ s.finished traits root) :
    ∃ mesh, s.bark traits b = .ok mesh := by
  have hok : (s.bark traits b).isOk = true :=
    List.mem_takeWhile_imp (p := fun b => (s.bark traits b).isOk) hb
  cases hbark : s.bark traits b with
  | ok mesh => exact ⟨mesh, rfl⟩
  | error e =>
    rw [hbark] at hok
    cases hok

theorem finished_eq_of_forall (h : ∀ b ∈ root.visible, ∃ mesh, s.bark traits b = .ok mesh) :
    s.finished traits root = root.visible := by
  rw [finished, ← Branch.visible_eq, List.takeWhile_eq_self_iff]
  intro b hb
  obtain ⟨mesh, hmesh⟩ := h b hb
  rw [hmesh]
  rfl

theorem finished_eq_of_error {done others : List (Branch α)}
    (hvisible : root.visible = done ++ b :: others)
    (hdone : ∀ d ∈ done, ∃ mesh, s.bark traits d = .ok mesh) (hb : s.bark traits b = .error e) :
    s.finished traits root = done := by
  have hpass : ∀ d ∈ done, (s.bark traits d).isOk = true := by
    intro d hd
    obtain ⟨mesh, hmesh⟩ := hdone d hd
    rw [hmesh]
    rfl
  rw [finished, ← Branch.visible_eq, hvisible, List.takeWhile_append_of_pos hpass,
    List.takeWhile_cons, hb]
  exact List.append_nil done

/-- Once there are a grid and a leaf, the assembly is the pass over the branches, and what follows
takes no sample and does not fail. -/
theorem exists_assemble_eq {leaf : Mesh α} (hgrid : s.grid traits = .ok grid)
    (hleaf : s.leaf = .ok leaf) (root : Branch α) : ∃ place : Model α S K → Model α S K,
      (s.assemble traits root : Growing σ α _) =
        root.visible.foldlM (s.addBranch traits grid) (.ofLeaf leaf) >>= fun m =>
          pure (place m) := by
  rw [assemble, hgrid, hleaf, ofExcept_ok_bind, ofExcept_ok_bind]
  exact ⟨_, rfl⟩

/-- Either an assembly gets all branches done, or it fails for the first one that it does not get
done. -/
theorem build_outcome [PositiveOne α] (hsegments : s.segmentCount ≠ 0)
    (htraits : traits.IsBuildable σ) (root : Branch α) (source : σ) :
    let o : Outcome σ α S K := s.build traits root source
    o.source = Sample.behindAll source (s.samples traits root) ∧
      ((∃ m, o.result = .ok m) ∧ s.finished traits root = root.visible ∨
        ∃ e b others, o.result = .error e ∧
          root.visible = s.finished traits root ++ b :: others ∧ s.bark traits b = .error e) := by
  obtain ⟨hradial, hbonus⟩ := htraits
  obtain ⟨grid, hgrid⟩ := exists_grid hsegments hradial
  obtain ⟨leaf, hleaf⟩ := exists_leaf s
  obtain ⟨place, hassemble⟩ := exists_assemble_eq (σ := σ) (S := S) hgrid hleaf root
  obtain ⟨m, rest, hyields⟩ | ⟨e, rest, hthrows⟩ :=
    yields_or_throws (s.assemble traits root : Growing σ α (Model α S K)) source
  · rw [build_of_yields hyields]
    rw [hassemble] at hyields
    obtain ⟨m', between, hloop, hplace⟩ := yields_bind.1 hyields
    obtain ⟨-, rfl⟩ := yields_pure.1 hplace
    have hfinished := finished_eq_of_forall (exists_bark_of_foldlM_yields hgrid hloop)
    rw [samples, hfinished]
    exact ⟨takes_foldlM (fun m b => takes_addBranch m b) root.visible (.ofLeaf leaf) source m'
      between hloop, .inl ⟨⟨m, rfl⟩, rfl⟩⟩
  · rw [build_of_throws hthrows]
    rw [hassemble] at hthrows
    obtain hloop | ⟨_, _, -, hpure⟩ := throws_bind.1 hthrows
    · have hcurves : ∀ b ∈ root.visible, ¬b.IsDegenerate := by simp [Branch.visible]
      obtain ⟨done, b, others, hvisible, hdone, hb, rfl⟩ :=
        exists_of_foldlM_throws hgrid hbonus hcurves hloop
      have hfinished := finished_eq_of_error hvisible hdone hb
      rw [samples, hfinished]
      exact ⟨rfl, .inr ⟨e, b, others, rfl, hvisible, hb⟩⟩
    · cases hpure

end Settings

/-! ## One assembly after the other -/

namespace Generator

variable [RandomSource σ α] [MeshArena S α K] [PositiveOne α]

theorem source_build (g : Generator σ α) {traits : Traits α} (htraits : traits.IsBuildable σ)
    (root : Branch α) : (g.build traits root : Outcome (Generator σ α) α S K).source =
      g.withSource (Sample.behindAll g.source (g.settings.samples traits root)) := by
  have hsegments := (Settings.validate_eq_ok_iff.1 g.valid).segmentCount
  exact congrArg g.withSource (Settings.build_outcome (S := S) hsegments htraits root g.source).1

theorem source_build_foldl (g : Generator σ α) {calls : List (Traits α × Branch α)}
    (hcalls : ∀ call ∈ calls, call.1.IsBuildable σ) :
    calls.foldl (fun g call =>
        (g.build call.1 call.2 : Outcome (Generator σ α) α S K).source) g =
      g.withSource (Sample.behindAll g.source
        (calls.flatMap fun call => g.settings.samples call.1 call.2)) := by
  induction calls generalizing g with
  | nil => rfl
  | cons call calls ih =>
    obtain ⟨hcall, hcalls⟩ := List.forall_mem_cons.1 hcalls
    rw [List.foldl_cons, g.source_build hcall, ih _ hcalls, List.flatMap_cons,
      Sample.behindAll_append]
    rfl

/-- An assembly fails exactly if one of the branches that carry a curve has no tube, and then it
fails like the first of them, the last fork being taken before the others. It takes four samples for
each branch before that one, or for all of them, and the next assembly goes on from there. -/
theorem build_samples :
    (∀ (g : Generator σ α) (traits : Traits α) (root : Branch α), traits.IsBuildable σ →
      let o : Outcome (Generator σ α) α S K := g.build traits root
      let branches := root.lastFirst.filter fun b => ¬b.IsDegenerate
      ((∃ e, o.result = .error e) ↔ ∃ b ∈ branches, ∃ e, g.settings.bark traits b = .error e) ∧
      (∀ e, o.result = .error e → ∃ b others,
        branches = g.settings.finished traits root ++ b :: others ∧
          (∀ d ∈ g.settings.finished traits root, ∃ mesh, g.settings.bark traits d = .ok mesh) ∧
          g.settings.bark traits b = .error e) ∧
      (∀ m, o.result = .ok m → g.settings.finished traits root = branches) ∧
      o.source =
        g.withSource (Sample.behindAll g.source (g.settings.samples traits root)) ∧
      (g.settings.samples traits root).length =
        4 * (g.settings.finished traits root).length) ∧
    ∀ (g : Generator σ α) (calls : List (Traits α × Branch α)),
      (∀ call ∈ calls, call.1.IsBuildable σ) →
      calls.foldl (fun g call =>
          (g.build call.1 call.2 : Outcome (Generator σ α) α S K).source) g =
        g.withSource (Sample.behindAll g.source
          (calls.flatMap fun call => g.settings.samples call.1 call.2)) := by
  refine ⟨?_, fun g calls hcalls => g.source_build_foldl hcalls⟩
  intro g traits root htraits o branches
  have hsegments := (Settings.validate_eq_ok_iff.1 g.valid).segmentCount
  have hvisible : root.visible = branches := root.visible_eq
  have hresult : o.result =
      (g.settings.build traits root g.source : Outcome σ α S K).result := rfl
  obtain ⟨-, houtcome⟩ := Settings.build_outcome (S := S) hsegments htraits root g.source
  rw [← hresult, hvisible] at houtcome
  have hbarks : ∀ d ∈ g.settings.finished traits root,
      ∃ mesh, g.settings.bark traits d = .ok mesh :=
    fun d hd => Settings.exists_bark_of_mem_finished hd
  have hsource : o.source = _ := g.source_build htraits root
  have hlength := g.settings.length_samples traits root
  obtain ⟨⟨m, hm⟩, hfinished⟩ | ⟨e, b, others, he, hsplit, hb⟩ := houtcome
  · refine ⟨⟨?_, ?_⟩, ?_, fun _ _ => hfinished, hsource, hlength⟩
    · rintro ⟨e, he⟩
      cases hm.symm.trans he
    · rintro ⟨b, hb, e, he⟩
      obtain ⟨mesh, hmesh⟩ := hbarks b (by rwa [hfinished])
      cases hmesh.symm.trans he
    · intro e he
      cases hm.symm.trans he
  · have hmem : b ∈ branches := by simp [hsplit]
    refine ⟨⟨fun _ => ⟨b, hmem, e, hb⟩, fun _ => ⟨e, he⟩⟩, ?_, ?_, hsource, hlength⟩
    · intro e' he'
      cases he.symm.trans he'
      exact ⟨b, others, hsplit, hbarks, hb⟩
    · intro m hm
      cases he.symm.trans hm

end Generator

/-! ## A stump -/

namespace Bush

/-- A twig whose radius becomes negative. -/
noncomputable def withered : Branch ℝ := ⟨#[0, .xAxis], [], 1, -1⟩

/-- A withered twig and a sound one behind it, on a branch that carries no curve and has no radius
of a tube either. -/
noncomputable def stump : Branch ℝ := ⟨#[0], [withered, twig .zAxis], -1, -1⟩

theorem visible_stump : stump.visible = [twig .zAxis, withered] := by
  rw [Branch.visible_eq]
  simp [stump, twig, withered, Branch.IsDegenerate, Branch.lastFirst, Branch.lastFirstOf]

theorem isBuildable_traits : traits.IsBuildable Fractions := by
  refine ⟨by decide, Option.isSome_iff_exists.2 ⟨_, if_pos ?_⟩⟩
  exact le_refl (0 : ℝ)

theorem bark_withered :
    (Settings.withering : Settings ℝ).bark traits withered = .error (.tube (.radius (-1))) := by
  obtain ⟨spline, hspline, -⟩ := Branch.exists_spline (b := withered) (Nat.lt_irrefl 2)
  let grid : TubeGrid := ⟨15, 3, true, by decide, by decide⟩
  have hgrid : (Settings.withering : Settings ℝ).grid traits = .ok grid := rfl
  have hbegin : Tube.IsRadius (1 : ℝ) := ⟨rfl, not_lt.2 zero_le_one⟩
  have hend : ¬Tube.IsRadius (-1 : ℝ) := fun h => h.2 (by norm_num)
  have hmesh : ((Settings.withering : Settings ℝ).tube grid withered spline.curve).mesh =
      .error (.radius (-1)) := (if_neg (not_not.2 hbegin)).trans (if_pos hend)
  rw [Settings.bark_eq hgrid hspline, hmesh]
  rfl

theorem exists_bark_twig {tip : Vec3 ℝ} (htip : (tip - 0).norm = 1) :
    ∃ mesh, (Settings.withering : Settings ℝ).bark traits (twig tip) = .ok mesh := by
  let grid : TubeGrid := ⟨15, 3, true, by decide, by decide⟩
  have hgrid : (Settings.withering : Settings ℝ).grid traits = .ok grid := rfl
  obtain ⟨spline, mesh, hspline, hmesh⟩ := exists_tube htip (by decide : grid.Fits)
  refine ⟨mesh, (Settings.bark_eq hgrid hspline).trans ?_⟩
  exact congrArg (Except.mapError GrowthError.tube) hmesh

theorem exists_bark_twig_zAxis :
    ∃ mesh, (Settings.withering : Settings ℝ).bark traits (twig .zAxis) = .ok mesh :=
  exists_bark_twig (by simp)

theorem samples_stump : (Settings.withering : Settings ℝ).samples traits stump =
    traits.leafSamples := by
  have hfinished : (Settings.withering : Settings ℝ).finished traits stump = [twig .zAxis] := by
    refine Settings.finished_eq_of_error visible_stump ?_ bark_withered
    rw [List.forall_mem_singleton]
    exact exists_bark_twig_zAxis
  rw [Settings.samples, hfinished, List.flatMap_singleton]

theorem samples_twig : (Settings.withering : Settings ℝ).samples traits (twig .xAxis) =
    traits.leafSamples := by
  have hfinished : (Settings.withering : Settings ℝ).finished traits (twig .xAxis) =
      [twig .xAxis] := by
    rw [← visible_twig]
    refine Settings.finished_eq_of_forall ?_
    rw [visible_twig, List.forall_mem_singleton]
    exact exists_bark_twig (by simp)
  rw [Settings.samples, hfinished, List.flatMap_singleton]

theorem behindAll_leafSamples (fractions : List ℝ) :
    Sample.behindAll (⟨fractions⟩ : Fractions) traits.leafSamples = ⟨fractions.drop 4⟩ := by
  have hnext (source : Fractions) : source.next.2 = ⟨source.fractions.drop 1⟩ := by
    obtain ⟨_ | ⟨_, _⟩⟩ := source <;> rfl
  have hbonus : RandomSource.scalar (σ := Fractions) (0 : ℝ) 0 =
      some fun source => (source.next.1 * (0 - 0) + 0, source.next.2) := if_pos le_rfl
  have hangle (source : Fractions) :
      (RandomSource.angle source).2 = ⟨source.fractions.drop 1⟩ := hnext source
  simp [Sample.behindAll, Traits.leafSamples, traits, Sample.behind, hbonus, hangle, hnext]

/-- The last fork of the stump becomes a limb, and then the first one fails. The next tree goes on
behind the four samples for that limb. -/
theorem build_samples_stump :
    let g : Generator Fractions ℝ :=
      ⟨.withering, Settings.validate_eq_ok_iff.2 Settings.isValid_withering,
        ⟨(List.range 9).map fun k => Scalar.ratio k 9⟩⟩
    traits.IsBuildable Fractions ∧
      (g.build traits stump).result = .error (.tube (.radius (-1))) ∧
      (g.build traits stump).source =
        g.withSource ⟨[4, 5, 6, 7, 8].map fun k => Scalar.ratio k 9⟩ ∧
      [(traits, stump), (traits, twig .xAxis)].foldl
        (fun g call => (g.build call.1 call.2).source) g = g.withSource ⟨[Scalar.ratio 8 9]⟩ := by
  intro g
  obtain ⟨hbuild, hcalls⟩ := Generator.build_samples (σ := Fractions) (α := ℝ)
  obtain ⟨hfails, herror, -, hsource, -⟩ := hbuild g traits stump isBuildable_traits
  rw [← Branch.visible_eq, visible_stump] at hfails herror
  have hstump : g.settings.samples traits stump = traits.leafSamples := samples_stump
  have htwig : g.settings.samples traits (twig .xAxis) = traits.leafSamples := samples_twig
  refine ⟨isBuildable_traits, ?_, ?_, ?_⟩
  · obtain ⟨e, he⟩ := hfails.2 ⟨withered, by simp, _, bark_withered⟩
    obtain ⟨b, others, hsplit, -, hb⟩ := herror e he
    have hmem : b ∈ [twig .zAxis, withered] := by simp [hsplit]
    obtain rfl | rfl := List.mem_pair.1 hmem
    · obtain ⟨mesh, hmesh⟩ := exists_bark_twig_zAxis
      cases hmesh.symm.trans hb
    · cases bark_withered.symm.trans hb
      exact he
  · rw [hsource, hstump, behindAll_leafSamples]
    rfl
  · rw [hcalls g _ (by simp [isBuildable_traits]), List.flatMap_cons, List.flatMap_singleton,
      hstump, htwig, Sample.behindAll_append, behindAll_leafSamples, behindAll_leafSamples]
    rfl

end Bush

end ProceduralTree
