import ProceduralTree.Growth.Sampling

/-!
# Success and failure of computations

A computation in steps succeeds exactly if every step does, and it fails with the error of one of
its steps. The lemmas below take computations apart without unfolding their monad.

## Main definitions

* `Growing.Yields` — a computation that draws and succeeds.
* `Growing.Throws` — a computation that draws and fails.
* `Growing.FailsWith` — the errors that a computation may have.
-/

namespace ProceduralTree

theorem bind_eq_ok {ε α β : Type} {x : Except ε α} {f : α → Except ε β} {b : β} :
    x >>= f = .ok b ↔ ∃ a, x = .ok a ∧ f a = .ok b := by
  cases x <;> simp [bind, Except.bind]

theorem bind_eq_error {ε α β : Type} {x : Except ε α} {f : α → Except ε β} {e : ε} :
    x >>= f = .error e ↔ x = .error e ∨ ∃ a, x = .ok a ∧ f a = .error e := by
  cases x <;> simp [bind, Except.bind]

namespace Growing

variable {σ α β γ : Type}

/-- The result of a computation, and what it leaves of the stream. -/
def outcome (x : Growing σ α β) (source : σ) : Except (GrowthError α) β × σ := x.run source

theorem outcome_bind (x : Growing σ α β) (f : β → Growing σ α γ) (source : σ) :
    outcome (x >>= f) source =
      match x.outcome source with
      | (.ok b, rest) => (f b).outcome rest
      | (.error e, rest) => (.error e, rest) := by
  change outcome (ExceptT.bind x f) source = _
  simp only [outcome, ExceptT.bind, ExceptT.mk, ExceptT.run, bind, StateT.bind]
  rcases x source with ⟨_ | _, _⟩ <;> rfl

/-- The computation succeeds with `b` and takes the stream from `source` to `rest`. -/
def Yields (x : Growing σ α β) (source : σ) (b : β) (rest : σ) : Prop :=
  x.outcome source = (.ok b, rest)

variable {source rest : σ} {b : β} {c : γ}

theorem yields_pure {b' : β} :
    Yields (pure b' : Growing σ α β) source b rest ↔ b' = b ∧ source = rest := by
  change ((.ok b', source) : Except (GrowthError α) β × σ) = (.ok b, rest) ↔ _
  simp

theorem yields_bind {x : Growing σ α β} {f : β → Growing σ α γ} :
    Yields (x >>= f) source c rest ↔
      ∃ b between, x.Yields source b between ∧ (f b).Yields between c rest := by
  rw [Yields, outcome_bind]
  rcases h : x.outcome source with ⟨e | b, between⟩
  · simp [Yields, h]
  · simp only [Yields, h, Prod.mk.injEq, Except.ok.injEq]
    constructor
    · intro hf
      exact ⟨b, between, ⟨rfl, rfl⟩, hf⟩
    · rintro ⟨_, _, ⟨rfl, rfl⟩, hf⟩
      exact hf

theorem yields_draw {d : Draw σ β} :
    Yields (draw d : Growing σ α β) source b rest ↔ d source = (b, rest) := by
  change ((.ok (d source).1, (d source).2) : Except (GrowthError α) β × σ) = (.ok b, rest) ↔ _
  rw [Prod.mk.injEq, Except.ok.injEq, Prod.ext_iff]

theorem yields_drawIn {d : Option (Draw σ β)} :
    Yields (drawIn d : Growing σ α β) source b rest ↔
      ∃ draw, d = some draw ∧ draw source = (b, rest) := by
  cases d with
  | none =>
    change ((.error .emptyDraw, source) : Except (GrowthError α) β × σ) = (.ok b, rest) ↔ _
    simp
  | some d => simpa [drawIn] using yields_draw

theorem yields_ofExcept {ε : Type} {cause : ε → GrowthError α} {r : Except ε β} :
    Yields (ofExcept cause r) source b rest ↔ r = .ok b ∧ source = rest := by
  cases r with
  | error e =>
    change ((.error (cause e), source) : Except (GrowthError α) β × σ) = (.ok b, rest) ↔ _
    simp
  | ok b' => simpa [ofExcept] using yields_pure

theorem ofExcept_ok_bind {ε : Type} (cause : ε → GrowthError α) (b : β) (f : β → Growing σ α γ) :
    ofExcept cause (.ok b) >>= f = f b := pure_bind b f

/-- What every step of a loop keeps, starting from a list `done` of finished items, holds of the
whole run. -/
theorem yields_foldlM {ι : Type} {f : β → ι → Growing σ α β} {motive : List ι → β → Prop}
    (step : ∀ done i b source b' rest, motive done b → (f b i).Yields source b' rest →
      motive (done ++ [i]) b')
    {items : List ι} (done : List ι) {b b' : β} (hb : motive done b)
    (h : (items.foldlM f b).Yields source b' rest) : motive (done ++ items) b' := by
  induction items generalizing done b source with
  | nil =>
    obtain ⟨rfl, -⟩ := yields_pure.1 h
    simpa using hb
  | cons i items ih =>
    rw [List.foldlM_cons] at h
    obtain ⟨b₁, between, h₁, h₂⟩ := yields_bind.1 h
    have := ih _ (step _ _ _ _ _ _ hb h₁) h₂
    rwa [List.append_assoc, List.singleton_append] at this

/-- A loop succeeds if each of its items can be taken at any time. -/
theorem exists_yields_foldlM {ι : Type} {f : β → ι → Growing σ α β} {items : List ι}
    (h : ∀ i ∈ items, ∀ b source, ∃ b' rest, (f b i).Yields source b' rest) (b : β) (source : σ) :
    ∃ b' rest, (items.foldlM f b).Yields source b' rest := by
  induction items generalizing b source with
  | nil => exact ⟨b, source, yields_pure.2 ⟨rfl, rfl⟩⟩
  | cons i items ih =>
    obtain ⟨hi, hitems⟩ := List.forall_mem_cons.1 h
    obtain ⟨b₁, between, h₁⟩ := hi b source
    obtain ⟨b', rest, h₂⟩ := ih hitems b₁ between
    rw [List.foldlM_cons]
    exact ⟨b', rest, yields_bind.2 ⟨b₁, between, h₁, h₂⟩⟩

/-! ## Failures -/

/-- The computation fails with `e` and takes the stream from `source` to `rest`. -/
def Throws (x : Growing σ α β) (source : σ) (e : GrowthError α) (rest : σ) : Prop :=
  x.outcome source = (.error e, rest)

variable {e : GrowthError α}

theorem throws_bind {x : Growing σ α β} {f : β → Growing σ α γ} :
    Throws (x >>= f) source e rest ↔
      x.Throws source e rest ∨ ∃ b between, x.Yields source b between ∧
        (f b).Throws between e rest := by
  rw [Throws, outcome_bind]
  rcases h : x.outcome source with ⟨e' | b, between⟩
  · simp [Throws, Yields, h]
  · simp only [Throws, Yields, h, Prod.mk.injEq, reduceCtorEq, false_and, false_or, Except.ok.injEq]
    constructor
    · intro hf
      exact ⟨b, between, ⟨rfl, rfl⟩, hf⟩
    · rintro ⟨_, _, ⟨rfl, rfl⟩, hf⟩
      exact hf

theorem throws_ofExcept_bind {ε : Type} {cause : ε → GrowthError α} {e' : ε}
    {f : β → Growing σ α γ} :
    Throws (ofExcept cause (.error e') >>= f) source e rest ↔ cause e' = e ∧ source = rest := by
  change ((.error (cause e'), source) : Except (GrowthError α) γ × σ) = (.error e, rest) ↔ _
  simp

/-- From any stream, a computation succeeds or fails. -/
theorem yields_or_throws (x : Growing σ α β) (source : σ) :
    (∃ b rest, x.Yields source b rest) ∨ ∃ e rest, x.Throws source e rest := by
  rcases h : x.outcome source with ⟨e | b, rest⟩
  · exact .inr ⟨e, rest, h⟩
  · exact .inl ⟨b, rest, h⟩

/-- A loop that fails has an item that fails, and gets to it through all items before. -/
theorem exists_of_throws_foldlM {ι : Type} {f : β → ι → Growing σ α β} {items : List ι}
    (h : (items.foldlM f b).Throws source e rest) :
    ∃ done i others b' between, items = done ++ i :: others ∧
      (done.foldlM f b).Yields source b' between ∧ (f b' i).Throws between e rest := by
  induction items generalizing b source with
  | nil => cases h
  | cons i items ih =>
    rw [List.foldlM_cons] at h
    obtain h | ⟨b₁, source₁, h₁, h⟩ := throws_bind.1 h
    · exact ⟨[], i, items, b, source, rfl, yields_pure.2 ⟨rfl, rfl⟩, h⟩
    · obtain ⟨done, j, others, b', between, rfl, hdone, hthrows⟩ := ih h
      refine ⟨i :: done, j, others, b', between, rfl, ?_, hthrows⟩
      rw [List.foldlM_cons]
      exact yields_bind.2 ⟨b₁, source₁, h₁, hdone⟩

/-- A computation does not both fail and succeed. -/
theorem Throws.not_yields {x : Growing σ α β} (h : x.Throws source e rest) {rest' : σ} :
    ¬x.Yields source b rest' := by
  rw [Yields, h]
  nofun

/-- Whatever the stream, an error of the computation is one of `P`. -/
def FailsWith (P : GrowthError α → Prop) (x : Growing σ α β) : Prop :=
  ∀ source e, (x.outcome source).1 = .error e → P e

variable {P : GrowthError α → Prop}

theorem FailsWith.of_throws {x : Growing σ α β} (hx : x.FailsWith P)
    (h : x.Throws source e rest) : P e :=
  hx source e (congrArg Prod.fst h)

theorem failsWith_pure (b : β) : FailsWith P (pure b : Growing σ α β) := nofun

theorem failsWith_draw (d : Draw σ β) : FailsWith P (draw d : Growing σ α β) := nofun

theorem failsWith_drawIn {d : Option (Draw σ β)} (h : d = none → P .emptyDraw) :
    FailsWith P (drawIn d : Growing σ α β) := by
  cases d with
  | none =>
    intro source e he
    cases he
    exact h rfl
  | some d => exact failsWith_draw d

theorem failsWith_ofExcept {ε : Type} {cause : ε → GrowthError α} {r : Except ε β}
    (h : ∀ e, r = .error e → P (cause e)) :
    FailsWith P (ofExcept cause r : Growing σ α β) := by
  cases r with
  | error e =>
    intro source e' he
    cases he
    exact h e rfl
  | ok b => exact failsWith_pure b

/-- The second computation has to be judged only for what the first may yield. -/
theorem FailsWith.bind {x : Growing σ α β} {f : β → Growing σ α γ} (hx : FailsWith P x)
    (hf : ∀ source b rest, x.Yields source b rest → FailsWith P (f b)) :
    FailsWith P (x >>= f) := by
  intro source e h
  rw [outcome_bind] at h
  rcases hout : x.outcome source with ⟨e' | b, rest⟩ <;> rw [hout] at h
  · cases h
    exact hx source e (by rw [hout])
  · exact hf source b rest hout rest e h

theorem failsWith_foldlM {ι : Type} {f : β → ι → Growing σ α β} {items : List ι}
    (h : ∀ i ∈ items, ∀ b, FailsWith P (f b i)) (b : β) : FailsWith P (items.foldlM f b) := by
  induction items generalizing b with
  | nil => exact failsWith_pure b
  | cons i items ih =>
    obtain ⟨hi, hitems⟩ := List.forall_mem_cons.1 h
    rw [List.foldlM_cons]
    exact (hi b).bind fun _ b' _ _ => ih hitems b'

end Growing

end ProceduralTree
