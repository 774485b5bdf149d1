import ProceduralTree.Random.Source

/-!
# Rules of a grammar

A sentence is a list of symbols. A rule gives a symbol one or more alternatives to be replaced by;
`Rules` holds at most one rule for a symbol.

## Main definitions

* `Rules.insert` — adds or replaces a rule; a rule without alternatives is refused.
* `Rules.alternatives?` — the rule for a symbol.
* `Alternatives.choose` — picks an alternative; the only one is picked without a draw.
-/

namespace ProceduralTree

abbrev Sentence := List Char

/-- The number of bytes of a sentence in UTF-8. -/
def Sentence.byteLength (s : Sentence) : Nat := s.foldl (fun n c => n + c.utf8Size) 0

/-- The replacements of a symbol, of which there is at least one. -/
structure Alternatives where
  first : Sentence
  others : List Sentence
deriving DecidableEq, Repr

namespace Alternatives

def toList (a : Alternatives) : List Sentence := a.first :: a.others

def ofList? : List Sentence → Option Alternatives
  | [] => none
  | first :: others => some ⟨first, others⟩

@[simp] theorem ofList?_toList (a : Alternatives) : ofList? a.toList = some a := rfl

/-- Draws one of the alternatives; a single one needs no draw. -/
def choose {σ : Type} [ChoiceSource σ] (a : Alternatives) (source : σ) : Sentence × σ :=
  match a.others with
  | [] => (a.first, source)
  | _ :: _ =>
    let (i, source) := ChoiceSource.alternative a.toList.length (Nat.zero_lt_succ _) source
    (a.toList.get i, source)

end Alternatives

/-- Why a rule was refused. -/
inductive RuleError where
  | noAlternatives (symbol : Char)
deriving DecidableEq, Repr

def RuleError.message : RuleError → String
  | .noAlternatives symbol => s!"rule for symbol '{symbol}' has no alternatives"

structure Rules where
  entries : List (Char × Alternatives)
  distinct : (entries.map Prod.fst).Nodup

namespace Rules

def empty : Rules := ⟨[], .nil⟩

def size (r : Rules) : Nat := r.entries.length

def isEmpty (r : Rules) : Bool := r.entries.isEmpty

/-- The rule for a symbol. -/
def alternatives? (r : Rules) (symbol : Char) : Option Alternatives :=
  r.entries.lookup symbol

/-- The rules with the one for `symbol`, if any, left out. -/
def erase (r : Rules) (symbol : Char) : Rules where
  entries := r.entries.filter (·.1 ≠ symbol)
  distinct := r.distinct.sublist (List.filter_sublist.map _)

/-- Sets the rule for `symbol`. -/
def set (r : Rules) (symbol : Char) (a : Alternatives) : Rules where
  entries := (symbol, a) :: (r.erase symbol).entries
  distinct := by
    simp only [List.map_cons, List.nodup_cons]
    exact ⟨by simp [erase], (r.erase symbol).distinct⟩

@[simp] theorem alternatives?_empty (symbol : Char) : empty.alternatives? symbol = none := rfl

private theorem lookup_filter_ne (entries : List (Char × Alternatives)) {symbol other : Char}
    (h : other ≠ symbol) :
    (entries.filter (·.1 ≠ symbol)).lookup other = entries.lookup other := by
  induction entries with
  | nil => rfl
  | cons e entries ih =>
    obtain ⟨key, a⟩ := e
    by_cases hk : key = symbol
    · subst hk
      have : (other == key) = false := beq_eq_false_iff_ne.2 h
      simpa [List.filter_cons, List.lookup_cons, this] using ih
    · simp only [ne_eq, decide_not] at ih
      simp [List.lookup_cons, hk, ih]

@[simp] theorem alternatives?_set_self (r : Rules) (symbol : Char) (a : Alternatives) :
    (r.set symbol a).alternatives? symbol = some a := by
  simp [set, alternatives?]

theorem alternatives?_set_of_ne (r : Rules) {symbol other : Char} (h : other ≠ symbol)
    (a : Alternatives) : (r.set symbol a).alternatives? other = r.alternatives? other := by
  have : (other == symbol) = false := beq_eq_false_iff_ne.2 h
  simp only [set, alternatives?, List.lookup_cons, this]
  exact lookup_filter_ne r.entries h

theorem mem_entries_iff (r : Rules) {symbol : Char} {a : Alternatives} :
    (symbol, a) ∈ r.entries ↔ r.alternatives? symbol = some a := by
  obtain ⟨entries, distinct⟩ := r
  simp only [alternatives?]
  induction entries with
  | nil => simp
  | cons e entries ih =>
    obtain ⟨key, first⟩ := e
    obtain ⟨hkey, distinct⟩ := List.nodup_cons.1 distinct
    by_cases h : symbol = key
    · subst h
      have : (symbol, a) ∉ entries := fun hmem => hkey (List.mem_map.2 ⟨_, hmem, rfl⟩)
      simp [this, eq_comm]
    · have : (symbol == key) = false := beq_eq_false_iff_ne.2 h
      simp [List.lookup_cons, this, h, ih distinct]

/-- Adds the rule for `symbol`, in place of an earlier one. -/
def insert (r : Rules) (symbol : Char) (alternatives : List Sentence) : Except RuleError Rules :=
  match Alternatives.ofList? alternatives with
  | none => .error (.noAlternatives symbol)
  | some a => .ok (r.set symbol a)

/-- The rules of a list, inserted in order. -/
def ofList (rules : List (Char × List Sentence)) : Except RuleError Rules :=
  rules.foldlM (fun r (symbol, alternatives) => r.insert symbol alternatives) empty

end Rules

end ProceduralTree
