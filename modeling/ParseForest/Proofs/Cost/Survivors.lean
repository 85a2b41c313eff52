import Mathlib.Algebra.Order.Group.Nat
import Mathlib.Data.List.Induction
import Mathlib.Data.Prod.Lex
import ParseForest.Cost
import ParseForest.Proofs.Success

/-!
Costs are compared by their keys, the counts in the order of their weight. The candidates that
survive a choice are those of least key, in the order in which they were offered, and the cost that
is kept is that of the first of them. If nothing costs anything, nothing is dropped. Main
statements: `items_offerAll`, `cost_offerAll`, `Free.items_offer`.
-/

namespace ParseForest

namespace Cost

/-- The counts, the weightiest first. The flag is not among them. -/
def key (c : Cost) : Nat ×ₗ Nat ×ₗ Nat ×ₗ Nat :=
  toLex (c.injections, toLex (c.fragmentSize, toLex (c.fragments, c.holes)))

theorem rank_eq_compare (a b : Cost) : a.rank b = compare a.key b.key := rfl

theorem rank_eq_lt_iff {a b : Cost} : a.rank b = .lt ↔ a.key < b.key := by
  rw [rank_eq_compare, compare_lt_iff_lt]

theorem rank_eq_eq_iff {a b : Cost} : a.rank b = .eq ↔ a.key = b.key := by
  rw [rank_eq_compare, compare_eq_iff_eq]

theorem rank_eq_gt_iff {a b : Cost} : a.rank b = .gt ↔ b.key < a.key := by
  rw [rank_eq_compare, compare_gt_iff_gt]

theorem isLE_rank_iff {a b : Cost} : (a.rank b).isLE = true ↔ a.key ≤ b.key := by
  rw [← Ordering.ne_gt_iff_isLE, rank_eq_compare]
  exact compare_le_iff_le

/-- Nothing in the cost counts. An open ambiguity may be recorded. -/
def IsFree (c : Cost) : Prop := c.withAmbiguous false = zero

theorem isFree_zero : zero.IsFree := rfl

theorem IsFree.withAmbiguous {c : Cost} (h : c.IsFree) (ambiguous : Bool) :
    (c.withAmbiguous ambiguous).IsFree := h

theorem IsFree.eq {c : Cost} (h : c.IsFree) : c = zero.withAmbiguous c.ambiguous := by
  cases c
  cases h
  rfl

theorem IsFree.add {c d e : Cost} (hc : c.IsFree) (hd : d.IsFree) (h : c.add d = .ok e) :
    e.IsFree := by
  rw [hc.eq, hd.eq] at h
  cases h
  rfl

theorem isFree_of_sum {costs : List Cost} {c : Cost} (hf : ∀ d ∈ costs, d.IsFree)
    (h : sum costs = .ok c) : c.IsFree := by
  have hz : zero.IsFree := isFree_zero
  unfold sum at h
  generalize zero = start at h hz
  induction costs generalizing start with
  | nil =>
    cases h
    exact hz
  | cons d costs ih =>
    obtain ⟨next, hn, h⟩ := Success.bind_eq_ok.1 h
    have hd := hf d List.mem_cons_self
    exact ih (fun d hd => hf d (List.mem_cons_of_mem _ hd)) next h (hz.add hd hn)

theorem IsFree.rank_eq {c d : Cost} (hc : c.IsFree) (hd : d.IsFree) : c.rank d = .eq := by
  rw [hc.eq, hd.eq]
  rfl

end Cost

/-- The members of least key, in their order. -/
def cheapestBy {α : Type} (cost : α → Cost) (as : List α) : List α :=
  as.filter fun a => decide (∀ b ∈ as, (cost a).key ≤ (cost b).key)

namespace Survivors

variable {α : Type}

theorem mem_offer {s : Survivors α} {a x : α} {c : Cost}
    (h : x ∈ (s.offer a c).items) : x ∈ s.items ∨ x = a := by
  unfold offer at h
  split at h
  · exact .inr (List.mem_singleton.1 h)
  · split at h
    · exact .inr (List.mem_singleton.1 h)
    · simpa using h
    · exact .inl h

def offerAll (s : Survivors α) (offers : List (α × Cost)) : Survivors α :=
  offers.foldl (fun s o => s.offer o.1 o.2) s

/-- The survivors are what ties with the kept cost, which is least and was offered first. -/
structure Tie (offers : List (α × Cost)) (s : Survivors α) (best : Cost) : Prop where
  kept : s.best = some best
  mem : ∃ o ∈ offers, o.2 = best
  least : ∀ o ∈ offers, best.key ≤ o.2.key
  items : s.items = (offers.filter fun o => o.2.rank best == .eq).map (·.1)
  first : (offers.filter fun o => o.2.rank best == .eq).head?.map (·.2) = some best

theorem rank_self (c : Cost) : c.rank c = .eq := Cost.rank_eq_eq_iff.2 rfl

theorem tie_singleton (o : α × Cost) : Tie [o] (Survivors.none.offer o.1 o.2) o.2 where
  kept := rfl
  mem := ⟨o, List.mem_singleton_self o, rfl⟩
  least := by simp
  items := by simp [offer, Survivors.none, rank_self]
  first := by simp [rank_self]

theorem Tie.offer {offers : List (α × Cost)} {s : Survivors α} {best : Cost}
    (h : Tie offers s best) (o : α × Cost) :
    ∃ best', Tie (offers ++ [o]) (s.offer o.1 o.2) best' := by
  obtain ⟨first, hmem, hbest⟩ := h.mem
  have least_of_le {c : Cost} (hold : c.key ≤ best.key) (hnew : c.key ≤ o.2.key) :
      ∀ p ∈ offers ++ [o], c.key ≤ p.2.key := by
    intro p hp
    rcases List.mem_append.1 hp with hp | hp
    · exact hold.trans (h.least p hp)
    · exact List.mem_singleton.1 hp ▸ hnew
  cases hr : o.2.rank best with
  | lt =>
    have hlt := Cost.rank_eq_lt_iff.1 hr
    have above : ∀ p ∈ offers, p.2.rank o.2 = .gt := fun p hp =>
      Cost.rank_eq_gt_iff.2 (hlt.trans_le (h.least p hp))
    have nothing : offers.filter (fun p => p.2.rank o.2 == .eq) = [] := by
      rw [List.filter_eq_nil_iff]
      intro p hp
      simp [above p hp]
    refine ⟨o.2, ?_, ⟨o, by simp, rfl⟩, least_of_le hlt.le le_rfl, ?_, ?_⟩
    · simp [Survivors.offer, h.kept, hr]
    · simp [Survivors.offer, h.kept, hr, List.filter_append, nothing, rank_self]
    · simp [List.filter_append, nothing, rank_self]
  | eq =>
    refine ⟨best, ?_, ⟨first, List.mem_append_left _ hmem, hbest⟩,
      least_of_le le_rfl (Cost.rank_eq_eq_iff.1 hr).ge, ?_, ?_⟩
    · simp [Survivors.offer, h.kept, hr]
    · simp [Survivors.offer, h.kept, hr, List.filter_append, h.items]
    · obtain ⟨p, hp, hb⟩ := Option.map_eq_some_iff.1 h.first
      simp [List.filter_append, List.head?_append, hp, hb]
  | gt =>
    refine ⟨best, ?_, ⟨first, List.mem_append_left _ hmem, hbest⟩,
      least_of_le le_rfl (Cost.rank_eq_gt_iff.1 hr).le, ?_, ?_⟩
    · simp [Survivors.offer, h.kept, hr]
    · simp [Survivors.offer, h.kept, hr, List.filter_append, h.items]
    · obtain ⟨p, hp, hb⟩ := Option.map_eq_some_iff.1 h.first
      simp [List.filter_append, List.head?_append, hp, hb]

theorem tie_offerAll (offers : List (α × Cost)) (hne : offers ≠ []) :
    ∃ best, Tie offers (offerAll .none offers) best := by
  induction offers using List.reverseRecOn with
  | nil => exact absurd rfl hne
  | append_singleton offers o ih =>
    rw [offerAll, List.foldl_append]
    by_cases he : offers = []
    · subst he
      exact ⟨o.2, tie_singleton o⟩
    · obtain ⟨best, h⟩ := ih he
      exact h.offer o

theorem Tie.filter_eq {offers : List (α × Cost)} {s : Survivors α} {best : Cost}
    (h : Tie offers s best) :
    offers.filter (fun o => o.2.rank best == .eq) = cheapestBy Prod.snd offers := by
  obtain ⟨first, hmem, rfl⟩ := h.mem
  refine List.filter_congr fun o ho => ?_
  rw [Bool.eq_iff_iff, beq_iff_eq, Cost.rank_eq_eq_iff, decide_eq_true_iff]
  constructor
  · intro heq p hp
    exact heq.trans_le (h.least p hp)
  · intro hle
    exact le_antisymm (hle first hmem) (h.least o ho)

theorem items_offerAll (offers : List (α × Cost)) :
    (offerAll .none offers).items = (cheapestBy Prod.snd offers).map (·.1) := by
  by_cases hne : offers = []
  · subst hne
    rfl
  · obtain ⟨best, h⟩ := tie_offerAll offers hne
    rw [h.items, h.filter_eq]

theorem cost_offerAll (offers : List (α × Cost)) :
    (offerAll .none offers).cost = ((cheapestBy Prod.snd offers).head?.map (·.2)).getD .zero := by
  by_cases hne : offers = []
  · subst hne
    rfl
  · obtain ⟨best, h⟩ := tie_offerAll offers hne
    rw [Survivors.cost, h.kept, ← h.filter_eq, h.first]

section Offers

variable {cost : α → Cost} {as bs : List α}

def offerBy (s : Survivors α) (cost : α → Cost) (as : List α) : Survivors α :=
  s.offerAll (as.map fun a => (a, cost a))

theorem tie_offerBy (cost : α → Cost) (h : as ≠ []) :
    ∃ best, Tie (as.map fun a => (a, cost a)) (offerBy .none cost as) best :=
  tie_offerAll _ fun he => h (List.map_eq_nil_iff.1 he)

theorem cheapestBy_pairs (cost : α → Cost) (as : List α) :
    cheapestBy Prod.snd (as.map fun a => (a, cost a)) =
      (cheapestBy cost as).map fun a => (a, cost a) := by
  unfold cheapestBy
  rw [List.filter_map]
  simp only [List.forall_mem_map, Function.comp_def]

theorem items_offerBy (as : List α) : (offerBy .none cost as).items = cheapestBy cost as := by
  rw [offerBy, items_offerAll, cheapestBy_pairs, List.map_map]
  exact List.map_id _

theorem cheapestBy_ne_nil (h : as ≠ []) : cheapestBy cost as ≠ [] := by
  obtain ⟨best, htie⟩ := tie_offerBy cost h
  rw [← items_offerBy, htie.items]
  intro he
  have hfirst := htie.first
  rw [List.map_eq_nil_iff.1 he] at hfirst
  cases hfirst

theorem cost_offerBy {a : α} (h : cheapestBy cost as = a :: bs) :
    (offerBy .none cost as).cost = cost a := by
  rw [offerBy, cost_offerAll, cheapestBy_pairs, h]
  rfl

end Offers

structure Free (s : Survivors α) : Prop where
  best : ∀ c ∈ s.best, c.IsFree
  unoffered : s.best = .none → s.items = []

theorem free_none : (none : Survivors α).Free := ⟨nofun, fun _ => rfl⟩

namespace Free

variable {s : Survivors α} {c : Cost} (h : s.Free)
include h

theorem cost : s.cost.IsFree := by
  unfold Survivors.cost
  cases hb : s.best with
  | none => exact Cost.isFree_zero
  | some best => exact h.best best hb

theorem items_offer (item : α) (hc : c.IsFree) : (s.offer item c).items = s.items ++ [item] := by
  unfold Survivors.offer
  cases hb : s.best with
  | none => rw [h.unoffered hb, List.nil_append]
  | some best => simp only [hc.rank_eq (h.best best hb)]

theorem offer (item : α) (hc : c.IsFree) : (s.offer item c).Free := by
  unfold Survivors.offer
  cases hb : s.best with
  | none =>
    refine ⟨fun d hd => ?_, nofun⟩
    cases hd
    exact hc
  | some best =>
    have hbest := h.best best hb
    simp only [hc.rank_eq hbest]
    refine ⟨fun d hd => ?_, nofun⟩
    cases hd
    exact hbest

end Free

end Survivors

end ParseForest
