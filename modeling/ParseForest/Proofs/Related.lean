import Mathlib.Data.List.Forall2

/-! Lists that are related member by member, split where one of them is. -/

namespace ParseForest

variable {α β : Type} {R : α → β → Prop}

theorem forall₂_append_left {as bs : List α} {us : List β} :
    List.Forall₂ R (as ++ bs) us ↔
      ∃ vs ws, List.Forall₂ R as vs ∧ List.Forall₂ R bs ws ∧ us = vs ++ ws := by
  constructor
  · intro h
    induction as generalizing us with
    | nil => exact ⟨[], us, .nil, h, rfl⟩
    | cons a as ih =>
      cases h with
      | cons ha h =>
        obtain ⟨vs, ws, hvs, hws, rfl⟩ := ih h
        exact ⟨_ :: vs, ws, .cons ha hvs, hws, rfl⟩
  · rintro ⟨vs, ws, hvs, hws, rfl⟩
    exact List.rel_append hvs hws

theorem forall₂_singleton_left {a : α} {us : List β} :
    List.Forall₂ R [a] us ↔ ∃ u, R a u ∧ us = [u] := by
  constructor
  · intro h
    cases h with
    | cons ha h =>
      cases h
      exact ⟨_, ha, rfl⟩
  · rintro ⟨u, hu, rfl⟩
    exact .cons hu .nil

theorem forall₂_flatten {tss : List (List α)} {us : List β} :
    List.Forall₂ R tss.flatten us ↔
      ∃ uss, List.Forall₂ (List.Forall₂ R) tss uss ∧ us = uss.flatten := by
  constructor
  · intro h
    induction tss generalizing us with
    | nil =>
      cases h
      exact ⟨[], .nil, rfl⟩
    | cons ts tss ih =>
      obtain ⟨vs, ws, hvs, hws, rfl⟩ := forall₂_append_left.1 h
      obtain ⟨wss, hwss, rfl⟩ := ih hws
      exact ⟨vs :: wss, .cons hvs hwss, rfl⟩
  · rintro ⟨uss, h, rfl⟩
    exact List.rel_flatten h

end ParseForest
