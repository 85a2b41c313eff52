import Mathlib.Algebra.Ring.Nat
import Mathlib.Order.Interval.Finset.Nat
import ParseForest.Proofs.Forest.Yield

/-!
How much of the input a node covers. In a forest whose spans nest as the text does, the parts of a
node never cover more than the node itself. Main statement: `Laid.extents_le`.
-/

namespace ParseForest

open Success

def Span.positions (s : Span) : Finset Nat := Finset.Ico s.offset (s.offset + s.length)

theorem Span.card_positions (s : Span) : s.positions.card = s.length := by
  simp [positions]

theorem Span.sum_length_le {spans : List Span} {region : Finset Nat}
    (hin : ∀ s ∈ spans, s.positions ⊆ region)
    (hapart : spans.Pairwise fun s t => Disjoint s.positions t.positions) :
    (spans.map (·.length)).sum ≤ region.card := by
  induction spans generalizing region with
  | nil => exact Nat.zero_le _
  | cons s spans ih =>
    obtain ⟨hs, hin⟩ := List.forall_mem_cons.1 hin
    obtain ⟨hfirst, hapart⟩ := List.pairwise_cons.1 hapart
    have hrest : (spans.map (·.length)).sum ≤ (region \ s.positions).card :=
      ih (fun t ht => Finset.subset_sdiff.2 ⟨hin t ht, (hfirst t ht).symm⟩) hapart
    have hcard : (region \ s.positions).card = region.card - s.length := by
      rw [Finset.card_sdiff_of_subset hs, s.card_positions]
    have hfits : s.length ≤ region.card := s.card_positions ▸ Finset.card_le_card hs
    rw [List.map_cons, List.sum_cons]
    omega

def Node.isCompound : Node → Bool
  | derivation .. | list .. | optional .. | ambiguity _ => true
  | _ => false

theorem Node.children_of_not_compound {n : Node} (h : n.isCompound = false) : n.children = [] := by
  cases n with
  | derivation | list | optional | ambiguity => cases h
  | _ => rfl

namespace Forest

variable {f : Forest} {id : NodeId}

def extent (f : Forest) (id : NodeId) : Nat := (f.spanOf id).elim 0 (·.length)

theorem extent_of_span {span : Option Span} (h : f.span id = .ok span) :
    f.extent id = span.elim 0 (·.length) := by
  obtain ⟨e, he, rfl⟩ := map_eq_ok.1 h
  unfold entry at he
  split at he
  · next hget =>
    cases he
    rw [extent, spanOf, hget]
    rfl
  · cases he

def extents (f : Forest) (ids : List NodeId) : Nat := (ids.map f.extent).sum

@[simp] theorem extents_nil : f.extents [] = 0 := rfl

@[simp] theorem extents_cons {ids : List NodeId} :
    f.extents (id :: ids) = f.extent id + f.extents ids := by simp [extents]

@[simp] theorem extents_append {ids more : List NodeId} :
    f.extents (ids ++ more) = f.extents ids + f.extents more := by simp [extents]

theorem extents_eq_sum_length {ids : List NodeId} :
    f.extents ids = ((ids.filterMap f.spanOf).map (·.length)).sum := by
  induction ids with
  | nil => rfl
  | cons id ids ih =>
    rw [extents_cons, ih, extent, List.filterMap_cons]
    cases f.spanOf id with
    | none => exact Nat.zero_add _
    | some s => rfl

structure LaidAt (f : Forest) (id : NodeId) (n : Node) : Prop where
  spanned : n.isCompound = true → (f.spanOf id).isSome = true
  bounded : ∀ s ∈ f.spanOf id, s.offset + s.length < wordLimit
  inside : ∀ c ∈ n.children, ∀ s ∈ f.spanOf c, ∀ t ∈ f.spanOf id, s.positions ⊆ t.positions
  apart : (n.children.filterMap f.spanOf).Pairwise fun s t => Disjoint s.positions t.positions
  shared : ∀ a ∈ n.alternatives, ∀ s ∈ f.spanOf a, f.spanOf id = some s

theorem laidAt_iff {n : Node} : f.LaidAt id n ↔
    (n.isCompound = true → (f.spanOf id).isSome = true) ∧
    (∀ s ∈ f.spanOf id, s.offset + s.length < wordLimit) ∧
    (∀ c ∈ n.children, ∀ s ∈ f.spanOf c, ∀ t ∈ f.spanOf id, s.positions ⊆ t.positions) ∧
    ((n.children.filterMap f.spanOf).Pairwise fun s t => Disjoint s.positions t.positions) ∧
    ∀ a ∈ n.alternatives, ∀ s ∈ f.spanOf a, f.spanOf id = some s :=
  ⟨fun h => ⟨h.spanned, h.bounded, h.inside, h.apart, h.shared⟩,
    fun h => ⟨h.1, h.2.1, h.2.2.1, h.2.2.2.1, h.2.2.2.2⟩⟩

instance (f : Forest) (id : NodeId) (n : Node) : Decidable (f.LaidAt id n) :=
  decidable_of_iff _ laidAt_iff.symm

/-- Every node that holds others has a span, all spans end within the number range, the parts of a
node lie apart from each other inside of it, and the readings of a cluster cover the same text. -/
def Laid (f : Forest) : Prop :=
  ∀ id (h : id < f.entries.size), f.LaidAt id f.entries[id].node

instance (f : Forest) : Decidable f.Laid := by
  unfold Laid
  infer_instance

namespace Laid

variable (hf : f.Laid)
include hf

theorem at_node {n : Node} (hn : f.node id = .ok n) : f.LaidAt id n := by
  obtain ⟨h, rfl⟩ := node_eq_ok.1 hn
  exact hf id h

theorem extent_lt (id : NodeId) : f.extent id < wordLimit := by
  cases hs : f.spanOf id with
  | none =>
    rw [extent, hs]
    exact Nat.zero_lt_succ _
  | some s =>
    -- What has a span is a node of the forest.
    obtain ⟨e, he, -⟩ := Option.bind_eq_some_iff.1 hs
    obtain ⟨h, -⟩ := Array.getElem?_eq_some_iff.1 he
    have hend := (hf id h).bounded s hs
    rw [extent, hs]
    exact Nat.lt_of_le_of_lt (Nat.le_add_left _ _) hend

theorem extents_le {n : Node} {ids : List NodeId} (hn : f.node id = .ok n)
    (hids : ids.Sublist n.children) : f.extents ids ≤ f.extent id := by
  have hat := hf.at_node hn
  cases hc : n.isCompound with
  | false =>
    rw [n.children_of_not_compound hc, List.sublist_nil] at hids
    subst hids
    exact Nat.zero_le _
  | true =>
    obtain ⟨t, ht⟩ := Option.isSome_iff_exists.1 (hat.spanned hc)
    have hin : ∀ s ∈ ids.filterMap f.spanOf, s.positions ⊆ t.positions := by
      intro s hs
      obtain ⟨c, hmem, hspan⟩ := List.mem_filterMap.1 hs
      exact hat.inside c (hids.subset hmem) s hspan t ht
    calc f.extents ids = ((ids.filterMap f.spanOf).map (·.length)).sum := extents_eq_sum_length
      _ ≤ t.positions.card := Span.sum_length_le hin (hat.apart.sublist (hids.filterMap _))
      _ = f.extent id := by rw [t.card_positions, extent, ht]; rfl

theorem extent_le_of_child {n : Node} {c : NodeId} (hn : f.node id = .ok n)
    (hc : c ∈ n.children) : f.extent c ≤ f.extent id := by
  simpa using hf.extents_le hn (List.singleton_sublist.2 hc)

theorem extent_le_of_alternative {n : Node} {a : NodeId} (hn : f.node id = .ok n)
    (ha : a ∈ n.alternatives) : f.extent a ≤ f.extent id := by
  cases hs : f.spanOf a with
  | none =>
    rw [extent, hs]
    exact Nat.zero_le _
  | some s =>
    rw [extent, extent, hs, (hf.at_node hn).shared a ha s hs]

end Laid

end Forest

end ParseForest
