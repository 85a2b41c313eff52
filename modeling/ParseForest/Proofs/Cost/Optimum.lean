import Mathlib.Logic.Function.Basic
import ParseForest.Proofs.Success
import ParseForest.Tree.Basic

/-!
The cheapest of weighted members. What was found is no member, the only one of least weight, or a
tie; it is kept when members are paired, and when they are offered one after the other. Main
statements: `Optimum.product`, `Pooled.offer`.
-/

namespace ParseForest

section Least

variable {α : Type} (L : α → Prop) (w : α → Nat)

structure Least (a : α) : Prop where
  mem : L a
  le : ∀ a', L a' → w a ≤ w a'

/-- Every other member weighs more. -/
structure Sole (a : α) : Prop where
  mem : L a
  lt : ∀ a', L a' → a' ≠ a → w a < w a'

structure Tied (a a' : α) : Prop where
  left : Least L w a
  right : L a'
  ne : a ≠ a'
  eq : w a = w a'

end Least

section

variable {α : Type} {L : α → Prop} {w : α → Nat} {a a' : α}

theorem Sole.least (h : Sole L w a) : Least L w a where
  mem := h.mem
  le a' ha' := by
    by_cases he : a' = a
    · exact Nat.le_of_eq (congrArg w he.symm)
    · exact Nat.le_of_lt (h.lt a' ha' he)

theorem Sole.unique {b : α} (h : Sole L w a) (hb : Least L w b) : b = a := by
  by_contra he
  exact absurd (hb.le a h.mem) (Nat.not_le.2 (h.lt b hb.mem he))

theorem Tied.least_right (h : Tied L w a a') : Least L w a' where
  mem := h.right
  le b hb := h.eq ▸ h.left.le b hb

theorem Sole.not_tied {b b' : α} (h : Sole L w a) : ¬ Tied L w b b' := fun ht =>
  ht.ne ((h.unique ht.left).trans (h.unique ht.least_right).symm)

end

def Cost.ofInjections (k : Nat) : Cost := { Cost.zero with injections := k }

theorem Cost.add_ofInjections {k l : Nat} (h : k + l < wordLimit) (f g : Bool) :
    ((ofInjections k).withAmbiguous f).add ((ofInjections l).withAmbiguous g) =
      .ok ((ofInjections (k + l)).withAmbiguous (f || g)) := by
  have hz : addWord 0 0 = .ok 0 := rfl
  have hs : addWord k l = .ok (k + l) := if_pos h
  simp only [add, withAmbiguous, ofInjections, zero, hz, hs]
  rfl

theorem Cost.rank_ofInjections (k l : Nat) (f g : Bool) :
    ((ofInjections k).withAmbiguous f).rank ((ofInjections l).withAmbiguous g) = compare k l := by
  simp only [rank, withAmbiguous, ofInjections, zero]
  cases compare k l <;> rfl

inductive Optimum {α β : Type} (L : α → Prop) (w : α → Nat) (f : α → β) : Option (β × Cost) → Prop
  | nothing (h : ∀ a, ¬ L a) : Optimum L w f none
  | sole {a : α} (h : Sole L w a) : Optimum L w f (some (f a, .ofInjections (w a)))
  | tied {a a' : α} (h : Tied L w a a') (x : β) :
    Optimum L w f (some (x, (Cost.ofInjections (w a)).withAmbiguous true))

namespace Optimum

variable {α β α' β' : Type} {L : α → Prop} {w : α → Nat} {f : α → β} {L' : α' → Prop}
  {w' : α' → Nat} {f' : α' → β'} {found : Option (β × Cost)}

theorem exists_least {x : β} {c : Cost} (h : Optimum L w f (some (x, c))) : ∃ a, Least L w a := by
  cases h with
  | sole h => exact ⟨_, h.least⟩
  | tied h => exact ⟨_, h.left⟩

theorem not_mem (h : Optimum L w f none) (a : α) : ¬ L a := by
  cases h with
  | nothing h => exact h a

section Map

variable {g : α → α'} (hL : ∀ a', L' a' ↔ ∃ a, L a ∧ g a = a') (hg : Function.Injective g)
  (hw : ∀ a, w' (g a) = w a)
include hL hw

theorem least_map {a : α} (h : Least L w a) : Least L' w' (g a) where
  mem := (hL _).2 ⟨a, h.mem, rfl⟩
  le b hb := by
    obtain ⟨a', ha', rfl⟩ := (hL b).1 hb
    rw [hw, hw]
    exact h.le a' ha'

theorem sole_map {a : α} (h : Sole L w a) : Sole L' w' (g a) where
  mem := (hL _).2 ⟨a, h.mem, rfl⟩
  lt b hb hne := by
    obtain ⟨a', ha', rfl⟩ := (hL b).1 hb
    rw [hw, hw]
    exact h.lt a' ha' fun he => hne (congrArg g he)

include hg in
theorem tied_map {a a' : α} (h : Tied L w a a') : Tied L' w' (g a) (g a') where
  left := least_map hL hw h.left
  right := (hL _).2 ⟨a', h.right, rfl⟩
  ne he := h.ne (hg he)
  eq := by
    rw [hw, hw]
    exact h.eq

include hg in
theorem map (F : β → Cost → β') (hf : ∀ a, L a → f' (g a) = F (f a) (.ofInjections (w a)))
    (h : Optimum L w f found) :
    Optimum L' w' f' (found.map fun x => (F x.1 x.2, x.2)) := by
  cases h with
  | nothing h =>
    refine .nothing fun a' ha' => ?_
    obtain ⟨a, ha, _⟩ := (hL a').1 ha'
    exact h a ha
  | @sole a h =>
    have hs := Optimum.sole (f := f') (sole_map hL hw h)
    rw [hw, hf a h.mem] at hs
    exact hs
  | @tied a a' h x =>
    have ht := Optimum.tied (f := f') (tied_map hL hg hw h)
      (F x ((Cost.ofInjections (w a)).withAmbiguous true))
    rw [hw] at ht
    exact ht

end Map

section Product

variable {α₁ α₂ β₁ β₂ : Type} {L₁ : α₁ → Prop} {L₂ : α₂ → Prop} {w₁ : α₁ → Nat} {w₂ : α₂ → Nat}
  {f₁ : α₁ → β₁} {f₂ : α₂ → β₂} {g : α₁ → α₂ → α}
  (hL : ∀ a, L a ↔ ∃ a₁ a₂, L₁ a₁ ∧ L₂ a₂ ∧ g a₁ a₂ = a)
  (hw : ∀ a₁ a₂, w (g a₁ a₂) = w₁ a₁ + w₂ a₂)
include hL hw

theorem least_product {a₁ : α₁} {a₂ : α₂} (h₁ : Least L₁ w₁ a₁) (h₂ : Least L₂ w₂ a₂) :
    Least L w (g a₁ a₂) where
  mem := (hL _).2 ⟨a₁, a₂, h₁.mem, h₂.mem, rfl⟩
  le b hb := by
    obtain ⟨b₁, b₂, hb₁, hb₂, rfl⟩ := (hL b).1 hb
    rw [hw, hw]
    exact Nat.add_le_add (h₁.le b₁ hb₁) (h₂.le b₂ hb₂)

theorem sole_product {a₁ : α₁} {a₂ : α₂} (h₁ : Sole L₁ w₁ a₁) (h₂ : Sole L₂ w₂ a₂) :
    Sole L w (g a₁ a₂) where
  mem := (hL _).2 ⟨a₁, a₂, h₁.mem, h₂.mem, rfl⟩
  lt b hb hne := by
    obtain ⟨b₁, b₂, hb₁, hb₂, rfl⟩ := (hL b).1 hb
    rw [hw, hw]
    by_cases he : b₁ = a₁
    · subst he
      have hlt := h₂.lt b₂ hb₂ fun he => hne (congrArg (g b₁) he)
      omega
    · have hlt := h₁.lt b₁ hb₁ he
      have hle := h₂.least.le b₂ hb₂
      omega

theorem tied_product_left {a₁ b₁ : α₁} {a₂ : α₂}
    (hg : ∀ a₁ a₂ b₁ b₂, g a₁ a₂ = g b₁ b₂ → a₁ = b₁ ∧ a₂ = b₂)
    (h₁ : Tied L₁ w₁ a₁ b₁) (h₂ : Least L₂ w₂ a₂) : Tied L w (g a₁ a₂) (g b₁ a₂) where
  left := least_product hL hw h₁.left h₂
  right := (hL _).2 ⟨b₁, a₂, h₁.right, h₂.mem, rfl⟩
  ne he := h₁.ne (hg _ _ _ _ he).1
  eq := by rw [hw, hw, h₁.eq]

theorem tied_product_right {a₁ : α₁} {a₂ b₂ : α₂}
    (hg : ∀ a₁ a₂ b₁ b₂, g a₁ a₂ = g b₁ b₂ → a₁ = b₁ ∧ a₂ = b₂)
    (h₁ : Least L₁ w₁ a₁) (h₂ : Tied L₂ w₂ a₂ b₂) : Tied L w (g a₁ a₂) (g a₁ b₂) where
  left := least_product hL hw h₁ h₂.left
  right := (hL _).2 ⟨a₁, b₂, h₁.mem, h₂.right, rfl⟩
  ne he := h₂.ne (hg _ _ _ _ he).2
  eq := by rw [hw, hw, h₂.eq]

theorem product (hg : ∀ a₁ a₂ b₁ b₂, g a₁ a₂ = g b₁ b₂ → a₁ = b₁ ∧ a₂ = b₂)
    (F : β₁ → β₂ → β) (hf : ∀ a₁ a₂, f (g a₁ a₂) = F (f₁ a₁) (f₂ a₂))
    (fits : ∀ a₁ a₂, L₁ a₁ → L₂ a₂ → w₁ a₁ + w₂ a₂ < wordLimit)
    {x₁ : β₁} {x₂ : β₂} {c₁ c₂ : Cost} (h₁ : Optimum L₁ w₁ f₁ (some (x₁, c₁)))
    (h₂ : Optimum L₂ w₂ f₂ (some (x₂, c₂))) :
    ∃ c, c₁.add c₂ = .ok c ∧ Optimum L w f (some (F x₁ x₂, c)) := by
  cases h₁ with
  | @sole a₁ h₁ =>
    cases h₂ with
    | @sole a₂ h₂ =>
      refine ⟨_, Cost.add_ofInjections (fits a₁ a₂ h₁.mem h₂.mem) false false, ?_⟩
      have hs := Optimum.sole (f := f) (sole_product hL hw h₁ h₂)
      rw [hf, hw] at hs
      exact hs
    | @tied a₂ b₂ h₂ =>
      refine ⟨_, Cost.add_ofInjections (fits a₁ a₂ h₁.mem h₂.left.mem) false true, ?_⟩
      have ht := Optimum.tied (f := f) (tied_product_right hL hw hg h₁.least h₂) (F (f₁ a₁) x₂)
      rw [hw] at ht
      exact ht
  | @tied a₁ b₁ h₁ =>
    obtain ⟨a₂, h₂'⟩ := h₂.exists_least
    have ht := Optimum.tied (f := f) (tied_product_left hL hw hg h₁ h₂') (F x₁ x₂)
    rw [hw] at ht
    cases h₂ with
    | @sole b₂ h₂ =>
      cases h₂.unique h₂'
      exact ⟨_, Cost.add_ofInjections (fits a₁ _ h₁.left.mem h₂.mem) true false, ht⟩
    | @tied b₂ b₂' h₂ =>
      have he : w₂ a₂ = w₂ b₂ := Nat.le_antisymm (h₂'.le b₂ h₂.left.mem) (h₂.left.le a₂ h₂'.mem)
      rw [he] at ht
      exact ⟨_, Cost.add_ofInjections (fits a₁ b₂ h₁.left.mem h₂.left.mem) true true, ht⟩

end Product

end Optimum

section Pooled

variable {α : Type} {L L' M : α → Prop} {w : α → Nat} {f : α → Tree}

inductive Pooled (L : α → Prop) (w : α → Nat) (f : α → Tree) : Survivors Tree → Prop
  | nothing (h : ∀ a, ¬ L a) : Pooled L w f .none
  | sole {a : α} (h : Sole L w a) (cost : (f a).cost = .ofInjections (w a)) :
    Pooled L w f ⟨some (.ofInjections (w a)), [f a]⟩
  | tied {a a' : α} (h : Tied L w a a') (flag : Bool) (t : Tree) (ts : List Tree)
    (cost : ts = [] → t.cost = (Cost.ofInjections (w a)).withAmbiguous true) :
    Pooled L w f ⟨some ((Cost.ofInjections (w a)).withAmbiguous flag), t :: ts⟩

theorem Optimum.pooled {t : Tree} (h : Optimum L w f (some (t, t.cost))) :
    Pooled L w f ⟨some t.cost, [t]⟩ := by
  generalize hc : t.cost = c at h
  cases h with
  | sole h => exact .sole h hc
  | tied h => exact .tied h true t [] fun _ => hc

theorem Optimum.cost_eq {x : Tree} {c : Cost} (h : Optimum L w f (some (x, c))) :
    ∃ a flag, Least L w a ∧ c = (Cost.ofInjections (w a)).withAmbiguous flag := by
  cases h with
  | @sole a h => exact ⟨a, false, h.least, rfl⟩
  | @tied a a' h => exact ⟨a, true, h.left, rfl⟩

section Union

variable (hM : ∀ a, M a ↔ L a ∨ L' a)
include hM

theorem sole_union {a : α} (h : Sole L w a) (hlt : ∀ b, L' b → w a < w b) : Sole M w a where
  mem := (hM a).2 (.inl h.mem)
  lt b hb hne := by
    rcases (hM b).1 hb with hb | hb
    · exact h.lt b hb hne
    · exact hlt b hb

theorem least_union {a : α} (h : Least L w a) (hle : ∀ b, L' b → w a ≤ w b) : Least M w a where
  mem := (hM a).2 (.inl h.mem)
  le b hb := by
    rcases (hM b).1 hb with hb | hb
    · exact h.le b hb
    · exact hle b hb

theorem tied_union {a a' : α} (h : Tied L w a a') (hlt : ∀ b, L' b → w a < w b) :
    Tied M w a a' where
  left := least_union hM h.left fun b hb => Nat.le_of_lt (hlt b hb)
  right := (hM a').2 (.inl h.right)
  ne := h.ne
  eq := h.eq

theorem Pooled.union {s : Survivors Tree} (h : Pooled L w f s)
    (hlt : ∀ a, Least L w a → ∀ b, L' b → w a < w b) (hne : ∃ a, L a) : Pooled M w f s := by
  cases h with
  | nothing h => exact absurd hne.choose_spec (h _)
  | sole h cost => exact .sole (sole_union hM h (hlt _ h.least)) cost
  | tied h flag t ts cost => exact .tied (tied_union hM h (hlt _ h.left)) flag t ts cost

end Union

theorem Pooled.offer {s : Survivors Tree} {t : Tree} (hM : ∀ a, M a ↔ L a ∨ L' a)
    (disjoint : ∀ a, L a → ¬ L' a) (hs : Pooled L w f s)
    (ht : Optimum L' w f (some (t, t.cost))) : Pooled M w f (s.offer t t.cost) := by
  have hM' : ∀ a, M a ↔ L' a ∨ L a := fun a => (hM a).trans Or.comm
  obtain ⟨a', flag', ha', hc'⟩ := ht.cost_eq
  have replaced (hlt : ∀ b, L b → w a' < w b) : Pooled M w f ⟨some t.cost, [t]⟩ := by
    refine ht.pooled.union hM' (fun a ha b hb => ?_) ⟨a', ha'.mem⟩
    exact Nat.lt_of_le_of_lt (ha.le a' ha'.mem) (hlt b hb)
  have step {a : α} (ha : Least L w a) (flag : Bool) {u : Tree} {us : List Tree}
      (hp : Pooled L w f ⟨some ((Cost.ofInjections (w a)).withAmbiguous flag), u :: us⟩) :
      Pooled M w f (Survivors.offer
        ⟨some ((Cost.ofInjections (w a)).withAmbiguous flag), u :: us⟩ t t.cost) := by
    have hr : t.cost.rank ((Cost.ofInjections (w a)).withAmbiguous flag) =
        compare (w a') (w a) := by
      rw [hc', Cost.rank_ofInjections]
    unfold Survivors.offer
    simp only [hr]
    cases hcmp : compare (w a') (w a) with
    | lt =>
      refine replaced fun b hb => ?_
      exact Nat.lt_of_lt_of_le (Nat.compare_eq_lt.1 hcmp) (ha.le b hb)
    | eq =>
      have he : w a' = w a := Nat.compare_eq_eq.1 hcmp
      have tied : Tied M w a a' := {
        left := least_union hM ha fun b hb => he ▸ ha'.le b hb
        right := (hM a').2 (.inr ha'.mem)
        ne := fun h => disjoint a ha.mem (h ▸ ha'.mem)
        eq := he.symm }
      exact .tied tied flag u (us ++ [t]) fun h => absurd h (by simp)
    | gt =>
      refine hp.union hM (fun b hb c hc => ?_) ⟨a, ha.mem⟩
      have hlt := Nat.compare_eq_gt.1 hcmp
      exact Nat.lt_of_le_of_lt (hb.le a ha.mem) (Nat.lt_of_lt_of_le hlt (ha'.le c hc))
  cases hs with
  | nothing h => exact replaced fun b hb => absurd hb (h b)
  | sole h cost => exact step h.least false (.sole h cost)
  | tied h flag u us cost => exact step h.left flag (.tied h flag u us cost)

end Pooled

end ParseForest
