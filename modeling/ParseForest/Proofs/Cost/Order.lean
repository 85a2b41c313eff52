import Mathlib.Algebra.GroupWithZero.Nat
import Mathlib.Algebra.Order.Group.Nat
import Mathlib.Algebra.Order.Monoid.Prod
import ParseForest.Proofs.Cost.Survivors
import ParseForest.Proofs.Tree.Ambiguity

/-!
Costs are compared in the lexicographic order of their keys. Keys add up as costs do, and addition
keeps and reflects their order: of two sums that differ in one summand, the one with the cheaper
summand is the cheaper one, so that a choice made for a part is right for the whole. Main
statements: `Cost.rank_add`, `Cost.rank_sum`, `Survivors.choice_composes`.
-/

namespace ParseForest

open Success

namespace Cost

variable {a b c : Cost}

/-- No count of the sum leaves the range. -/
structure Fits (a b : Cost) : Prop where
  injections : a.injections + b.injections < wordLimit
  holes : a.holes + b.holes < wordLimit
  fragments : a.fragments + b.fragments < wordLimit
  fragmentSize : a.fragmentSize + b.fragmentSize < wordLimit

theorem exists_add (h : a.Fits b) : ∃ c, a.add b = .ok c := by
  have word {m n : Nat} (hmn : m + n < wordLimit) : addWord m n = .ok (m + n) := if_pos hmn
  rw [add, word h.injections, word h.holes, word h.fragments, word h.fragmentSize]
  exact ⟨_, rfl⟩

theorem key_of_add (h : a.add b = .ok c) : c.key = a.key + b.key := by
  rw [eq_of_add h]
  rfl

theorem key_of_sum {costs : List Cost} (h : sum costs = .ok c) :
    c.key = (costs.map key).sum := by
  have hfrom : ∀ start, costs.foldlM add start = .ok c →
      c.key = start.key + (costs.map key).sum := by
    clear h
    induction costs with
    | nil =>
      intro start h
      cases h
      exact (add_zero _).symm
    | cons d costs ih =>
      intro start h
      obtain ⟨next, hnext, h⟩ := bind_eq_ok.1 h
      rw [ih next h, key_of_add hnext, List.map_cons, List.sum_cons, add_assoc]
  exact (hfrom zero h).trans (zero_add _)

theorem rank_add {x y : Cost} (hx : a.add c = .ok x) (hy : b.add c = .ok y) :
    x.rank y = a.rank b := by
  rw [rank_eq_compare, rank_eq_compare, key_of_add hx, key_of_add hy, ← cmp_eq_compare,
    ← cmp_eq_compare, cmp_add_right]

theorem rank_sum {front back : List Cost} {x y : Cost} (hx : sum (front ++ a :: back) = .ok x)
    (hy : sum (front ++ b :: back) = .ok y) : x.rank y = a.rank b := by
  have key_sum (d : Cost) : ((front ++ d :: back).map key).sum =
      (front.map key).sum + (d.key + (back.map key).sum) := by
    rw [List.map_append, List.sum_append, List.map_cons, List.sum_cons]
  rw [rank_eq_compare, rank_eq_compare, key_of_sum hx, key_of_sum hy, key_sum, key_sum,
    ← cmp_eq_compare, ← cmp_eq_compare, cmp_add_left, cmp_add_right]

end Cost

namespace Survivors

open Cost

/-- The offers of least key, in the order in which they were made. -/
def cheapest {α : Type} (offers : List (α × Cost)) : List (α × Cost) :=
  offers.filter fun o => decide (∀ p ∈ offers, o.2.key ≤ p.2.key)

/-- What survives the offers are all those of least key, with the full cost of the first of them.
The order of keys is total, and it is that of sums which share their other summands. -/
theorem choice_composes {α : Type} (offers : List (α × Cost)) :
    (offerAll .none offers).items = (cheapest offers).map (·.1) ∧
    (offerAll .none offers).cost = ((cheapest offers).head?.map (·.2)).getD .zero ∧
    (∀ a b : Cost, a.rank b = compare a.key b.key) ∧
    (∀ a b : Cost, (a.rank b).isLE = true ∨ (b.rank a).isLE = true) ∧
    (∀ a b c : Cost, (a.rank b).isLE = true → (b.rank c).isLE = true → (a.rank c).isLE = true) ∧
    (∀ a b c : Cost, a.Fits c → b.Fits c →
      ∃ x y, a.add c = .ok x ∧ b.add c = .ok y ∧ x.rank y = a.rank b) ∧
    ∀ (front back : List Cost) (a b x y : Cost), sum (front ++ a :: back) = .ok x →
      sum (front ++ b :: back) = .ok y → x.rank y = a.rank b := by
  refine ⟨items_offerAll offers, cost_offerAll offers, rank_eq_compare, fun a b => ?_,
    fun a b c hab hbc => ?_, fun a b c ha hb => ?_, fun front back a b x y => rank_sum⟩
  · rw [isLE_rank_iff, isLE_rank_iff]
    exact le_total a.key b.key
  · rw [isLE_rank_iff] at hab hbc ⊢
    exact hab.trans hbc
  · obtain ⟨x, hx⟩ := exists_add ha
    obtain ⟨y, hy⟩ := exists_add hb
    exact ⟨x, y, hx, hy, rank_add hx hy⟩

def readings : List (String × Cost) :=
  [("renamed", ⟨false, 1, 0, 0, 5⟩), ("open", ⟨true, 0, 1, 1, 7⟩), ("settled", ⟨false, 0, 1, 1, 7⟩),
    ("longer", ⟨false, 0, 0, 1, 9⟩)]

theorem choice_composes_readings :
    (offerAll .none readings).items = ["open", "settled"] ∧
    (offerAll .none readings).cost = ⟨true, 0, 1, 1, 7⟩ ∧
    (∃ x y, add ⟨true, 0, 1, 1, 7⟩ ⟨false, 2, 0, 0, 1⟩ = .ok x ∧
      add ⟨false, 1, 0, 0, 5⟩ ⟨false, 2, 0, 0, 1⟩ = .ok y ∧ x.rank y = .lt) ∧
    (⟨true, 2, 1, 2, 16⟩ : Cost).rank ⟨false, 3, 0, 1, 14⟩ = .lt := by
  obtain ⟨hitems, hcost, _, _, _, hadd, hsum⟩ := choice_composes readings
  have hopen : Fits ⟨true, 0, 1, 1, 7⟩ ⟨false, 2, 0, 0, 1⟩ := by constructor <;> decide
  have hrenamed : Fits ⟨false, 1, 0, 0, 5⟩ ⟨false, 2, 0, 0, 1⟩ := by constructor <;> decide
  refine ⟨hitems.trans (by decide), hcost.trans (by decide), hadd _ _ _ hopen hrenamed, ?_⟩
  exact hsum [⟨false, 2, 0, 0, 1⟩] [⟨false, 0, 0, 1, 8⟩] ⟨true, 0, 1, 1, 7⟩ ⟨false, 1, 0, 0, 5⟩ _ _
    rfl rfl

end Survivors

end ParseForest
