import Mathlib.Algebra.GroupWithZero.Nat
import ProceduralTree.Proofs.Skeleton.Traversal

/-!
# Addresses of branches

Two branches of a tree may be equal and still be in different places. The address of a place says
how many forks to pass over at each branch on the way there. A walk that takes the forks in their
order comes to all addresses of the tree, to each of them once, and they ascend on the way.

## Main definitions

* `Branch.firstFirst` — a branch and all below it by recursion, the first fork before the others.
* `Branch.at?` — the branch at an address.
* `Branch.addresses` — the addresses of a tree by recursion.

## Main statements

* `Branch.map_at?_addresses`, `Branch.mem_addresses_iff`, `Branch.ascending_addresses` — recursion
  finds the branches at the addresses of the tree, which it lists without gaps and in order.
* `Branch.walks_eq` — what the walks with a stack find, by recursion over the tree.
-/

namespace ProceduralTree.Branch

variable {α : Type}

/-! ## The walk in the order of the forks -/

mutual

/-- The branch, and then its forks with all below them, the first fork first. -/
def firstFirst : Branch α → List (Branch α)
  | ⟨points, forks, radiusBegin, radiusEnd⟩ =>
    ⟨points, forks, radiusBegin, radiusEnd⟩ :: firstFirstOf forks

/-- The branches of a list with all below them, the first first. -/
def firstFirstOf : List (Branch α) → List (Branch α)
  | [] => []
  | b :: rest => b.firstFirst ++ firstFirstOf rest

end

mutual

/-- The walk with a stack visits the same branches in the same order. -/
theorem preorder_eq_firstFirst : (b : Branch α) → b.preorder = b.firstFirst
  | ⟨points, forks, radiusBegin, radiusEnd⟩ => by
    rw [preorder_eq, firstFirst, flatMap_preorder_eq forks]

theorem flatMap_preorder_eq : (forks : List (Branch α)) →
    forks.flatMap preorder = firstFirstOf forks
  | [] => rfl
  | b :: rest => by
    rw [List.flatMap_cons, preorder_eq_firstFirst b, flatMap_preorder_eq rest, firstFirstOf]

end

/-! ## Addresses -/

/-- The branch at an address, if the tree has it. -/
def at? (b : Branch α) : List Nat → Option (Branch α)
  | [] => some b
  | k :: address => b.forks[k]?.bind fun fork => fork.at? address

mutual

/-- The addresses of a tree: that of its root, and then those on its forks. -/
def addresses : Branch α → List (List Nat)
  | ⟨_, forks, _, _⟩ => [] :: addressesFrom 0 forks

/-- The addresses on the forks of a branch from fork `k` on. -/
def addressesFrom (k : Nat) : List (Branch α) → List (List Nat)
  | [] => []
  | b :: rest => b.addresses.map (k :: ·) ++ addressesFrom (k + 1) rest

end

example : addresses (⟨#[], [⟨#[], [⟨#[], [], 2, 1⟩], 3, 1⟩, ⟨#[], [], 2, 2⟩], 4, 3⟩ : Branch Nat) =
    [[], [0], [0, 0], [1]] := by
  decide

theorem addresses_eq (b : Branch α) : b.addresses = [] :: addressesFrom 0 b.forks := by
  cases b
  rw [addresses]

theorem mem_addressesFrom_iff {k : Nat} {forks : List (Branch α)} {address : List Nat} :
    address ∈ addressesFrom k forks ↔
      ∃ j fork inner, address = (k + j) :: inner ∧ forks[j]? = some fork ∧
        inner ∈ fork.addresses := by
  induction forks generalizing k with
  | nil => simp [addressesFrom]
  | cons b rest ih =>
    rw [addressesFrom, List.mem_append, List.mem_map, ih]
    constructor
    · rintro (⟨inner, hinner, rfl⟩ | ⟨j, fork, inner, rfl, hfork, hinner⟩)
      · exact ⟨0, b, inner, rfl, rfl, hinner⟩
      · exact ⟨j + 1, fork, inner, by rw [Nat.add_right_comm, Nat.add_assoc], hfork, hinner⟩
    · rintro ⟨_ | j, fork, inner, rfl, hfork, hinner⟩
      · cases hfork
        exact .inl ⟨inner, hinner, rfl⟩
      · exact .inr ⟨j, fork, inner, by rw [Nat.add_right_comm, Nat.add_assoc], hfork, hinner⟩

theorem cons_mem_addresses_iff {b : Branch α} {k : Nat} {address : List Nat} :
    k :: address ∈ b.addresses ↔ ∃ fork, b.forks[k]? = some fork ∧ address ∈ fork.addresses := by
  rw [addresses_eq, List.mem_cons, mem_addressesFrom_iff]
  grind

/-- No address of the tree is left out. -/
theorem mem_addresses_iff {b : Branch α} {address : List Nat} :
    address ∈ b.addresses ↔ (b.at? address).isSome := by
  induction address generalizing b with
  | nil => simp [addresses_eq, at?]
  | cons k address ih =>
    rw [cons_mem_addresses_iff, at?]
    cases b.forks[k]? with
    | none => simp
    | some fork => simp [ih]

mutual

/-- The addresses ascend in lexicographic order. -/
theorem ascending_addresses : (b : Branch α) → b.addresses.Pairwise (List.Lex (· < ·))
  | ⟨_, forks, _, _⟩ => by
    rw [addresses, List.pairwise_cons]
    refine ⟨fun address haddress => ?_, ascending_addressesFrom 0 forks⟩
    obtain ⟨j, -, inner, rfl, -⟩ := mem_addressesFrom_iff.1 haddress
    exact .nil

theorem ascending_addressesFrom (k : Nat) : (forks : List (Branch α)) →
    (addressesFrom k forks).Pairwise (List.Lex (· < ·))
  | [] => .nil
  | b :: rest => by
    rw [addressesFrom, List.pairwise_append]
    refine ⟨List.pairwise_map.2 ((ascending_addresses b).imp .cons),
      ascending_addressesFrom (k + 1) rest, fun address haddress other hother => ?_⟩
    obtain ⟨inner, -, rfl⟩ := List.mem_map.1 haddress
    obtain ⟨j, -, inner', rfl, -⟩ := mem_addressesFrom_iff.1 hother
    exact .rel (by omega)

end

mutual

/-- Recursion finds the branches at the addresses. -/
theorem map_at?_addresses : (b : Branch α) → b.addresses.map b.at? = b.firstFirst.map some
  | ⟨points, forks, radiusBegin, radiusEnd⟩ => by
    rw [addresses, firstFirst, List.map_cons, List.map_cons]
    exact congrArg _ (map_at?_addressesFrom _ [] forks rfl)

-- Addresses are read from `b`, so the forks before the first of `forks` have to be kept in `done`.
theorem map_at?_addressesFrom (b : Branch α) (done : List (Branch α)) :
    (forks : List (Branch α)) → b.forks = done ++ forks →
    (addressesFrom done.length forks).map b.at? = (firstFirstOf forks).map some
  | [], _ => rfl
  | fork :: rest, h => by
    have hat (address : List Nat) : b.at? (done.length :: address) = fork.at? address := by
      simp [at?, h]
    have hrest := map_at?_addressesFrom b (done ++ [fork]) rest (by simp [h])
    rw [List.length_append] at hrest
    rw [addressesFrom, firstFirstOf, List.map_append, List.map_append, List.map_map,
      ← map_at?_addresses fork, ← hrest]
    simp only [Function.comp_def, hat, List.length_singleton]

end

/-! ## Counts -/

theorem forkCount_eq_total (b : Branch α) : b.forkCount = total b.forks := by
  rw [forkCount, length_preorder, size_eq, Nat.add_sub_cancel_left]

theorem total_eq_sum (forks : List (Branch α)) :
    total forks = (forks.map fun fork => 1 + fork.forkCount).sum := by
  induction forks with
  | nil => rfl
  | cons b rest ih => rw [total_cons, List.map_cons, List.sum_cons, ih, forkCount_eq_total]

theorem heightOf_eq_foldr (forks : List (Branch α)) :
    heightOf forks = (forks.map depth).foldr max 0 := by
  induction forks with
  | nil => rfl
  | cons b rest ih => rw [heightOf, List.map_cons, List.foldr_cons, ih, depth_eq_height]

/-- A walk with a stack visits the branches in the order of the recursion over the tree: those at
all addresses, each of them once, and in lexicographic order. There are as many forks below a branch
as its forks and the forks below these, and one more level than below the deepest fork. -/
theorem walks_eq (b : Branch α) :
    b.preorder = b.firstFirst ∧
    (b.preorder.map some = b.addresses.map b.at? ∧ b.addresses.Nodup ∧
      b.addresses.Pairwise (List.Lex (· < ·)) ∧
      ∀ address, address ∈ b.addresses ↔ (b.at? address).isSome) ∧
    b.forkCount = (b.forks.map fun fork => 1 + fork.forkCount).sum ∧
    b.depth = 1 + (b.forks.map depth).foldr max 0 := by
  refine ⟨preorder_eq_firstFirst b, ⟨?_, ?_, ascending_addresses b, fun _ => mem_addresses_iff⟩,
    ?_, ?_⟩
  · rw [preorder_eq_firstFirst, map_at?_addresses]
  · refine (ascending_addresses b).imp ?_
    rintro address _ hlt rfl
    exact List.lt_irrefl address hlt
  · rw [forkCount_eq_total, total_eq_sum]
  · rw [depth_eq_height, height_eq, heightOf_eq_foldr]

end ProceduralTree.Branch
