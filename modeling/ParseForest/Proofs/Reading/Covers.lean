import ParseForest.Proofs.Reading.Plain
import ParseForest.Proofs.Related

/-!
What it means that the ways to resolve a result are the derivations, for single trees and for the
members of lists, and how this passes through computations that can fail. Main definition: `Covers`.
-/

namespace ParseForest

/-- The result of a computation has the property; if there is none, the error is no ambiguity. -/
def Meets {α : Type} (P : α → Prop) : Except Error α → Prop
  | .ok a => P a
  | .error e => e.isAmbiguity = false

section Meets

variable {α β : Type} {P : α → Prop} {Q : β → Prop}

theorem meets_bind {x : Except Error α} {f : α → Except Error β} (hx : Meets P x)
    (hf : ∀ a, P a → Meets Q (f a)) : Meets Q (x >>= f) := by
  cases x with
  | ok a => exact hf a hx
  | error e => exact hx

theorem meets_map {x : Except Error α} {f : α → β} (hx : Meets P x) (hf : ∀ a, P a → Q (f a)) :
    Meets Q (f <$> x) := by
  cases x with
  | ok a => exact hf a hx
  | error e => exact hx

theorem meets_attempt {x : Except Error α} (hx : Meets P x) :
    Meets (fun r => ∃ a, r = .ok a ∧ P a) (Plain.attempt x) := by
  cases x with
  | ok a => exact ⟨a, rfl, hx⟩
  | error e =>
    have he : e.isAmbiguity = false := hx
    simp only [Plain.attempt, he, Bool.false_eq_true, if_false]
    exact he

theorem meets_checked (x : Checked α) :
    Meets (fun a => x = .ok a) (x.mapError Error.breach) := by
  cases x with
  | ok a => exact rfl
  | error e => exact rfl

end Meets

/-- What was found resolves to what is derived, and to nothing else, and it is free. -/
structure Covers {α β : Type} (R : α → β → Prop) (free : α → Prop) (D : β → Prop)
    (found : Option α) : Prop where
  resolves : ∀ u, (∃ t ∈ found, R t u) ↔ D u
  free : ∀ t ∈ found, free t

section Covers

variable {α β γ : Type} {R : α → β → Prop} {free : α → Prop} {D : β → Prop}

theorem covers_none (h : ∀ u, ¬ D u) : Covers R free D none where
  resolves u := by
    constructor
    · rintro ⟨t, ht, _⟩
      cases ht
    · intro hu
      exact absurd hu (h u)
  free := nofun

theorem covers_some {t : α} (hf : free t) (h : ∀ u, R t u ↔ D u) :
    Covers R free D (some t) where
  resolves u := by
    rw [← h u]
    constructor
    · rintro ⟨_, ht, hu⟩
      cases ht
      exact hu
    · intro hu
      exact ⟨t, rfl, hu⟩
  free := by
    intro _ ht
    cases ht
    exact hf

theorem Covers.of_none (h : Covers R free D none) (u : β) : ¬ D u := by
  intro hu
  obtain ⟨t, ht, _⟩ := (h.resolves u).2 hu
  cases ht

theorem Covers.of_some {t : α} (h : Covers R free D (some t)) (u : β) : R t u ↔ D u := by
  rw [← h.resolves u]
  constructor
  · intro hu
    exact ⟨t, rfl, hu⟩
  · rintro ⟨_, ht, hu⟩
    cases ht
    exact hu

theorem Covers.map {α' β' : Type} {R' : α' → β' → Prop} {free' : α' → Prop} {D' : β' → Prop}
    {found : Option α} {f : α → α'} (h : Covers R free D found) (hf : ∀ t, free t → free' (f t))
    (g : β → β') (hR : ∀ t u', R' (f t) u' ↔ ∃ u, R t u ∧ u' = g u)
    (hD : ∀ u', D' u' ↔ ∃ u, D u ∧ u' = g u) : Covers R' free' D' (found.map f) := by
  cases found with
  | none =>
    refine covers_none fun u' hu' => ?_
    obtain ⟨u, hu, _⟩ := (hD u').1 hu'
    exact h.of_none u hu
  | some t =>
    refine covers_some (hf t (h.free t rfl)) fun u' => ?_
    rw [hR, hD]
    constructor
    · rintro ⟨u, hu, rfl⟩
      exact ⟨u, (h.of_some u).1 hu, rfl⟩
    · rintro ⟨u, hu, rfl⟩
      exact ⟨u, (h.of_some u).2 hu, rfl⟩

theorem meets_collect {step : γ → Except Error (Option α)} {D : γ → β → Prop} {cs : List γ}
    (h : ∀ c ∈ cs, Meets (Covers R free (D c)) (step c)) :
    Meets (Covers (List.Forall₂ R) (fun ts => ∀ t ∈ ts, free t) (List.Forall₂ D cs))
      (Plain.collect step cs) := by
  induction cs with
  | nil =>
    refine covers_some nofun fun us => ?_
    rw [List.forall₂_nil_left_iff, List.forall₂_nil_left_iff]
  | cons c cs ih =>
    refine meets_bind (h c List.mem_cons_self) fun found hc => ?_
    cases found with
    | none =>
      refine covers_none fun us hus => ?_
      cases hus with
      | cons hu _ => exact hc.of_none _ hu
    | some t =>
      refine meets_map (ih fun c hc => h c (List.mem_cons_of_mem _ hc)) fun found hcs => ?_
      cases found with
      | none =>
        refine covers_none fun us hus => ?_
        cases hus with
        | cons _ hus => exact hcs.of_none _ hus
      | some ts =>
        refine covers_some ?_ fun us => ?_
        · exact List.forall_mem_cons.2 ⟨hc.free t rfl, hcs.free ts rfl⟩
        · rw [List.forall₂_cons_left_iff, List.forall₂_cons_left_iff]
          simp only [hc.of_some, hcs.of_some]

end Covers

end ParseForest
