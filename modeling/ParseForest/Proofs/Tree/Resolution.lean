import Mathlib.Data.List.Forall2
import ParseForest.Registry.Basic

/-!
Resolution of ambiguous trees: one alternative is chosen at every ambiguity node, in every possible
way. What is left has no ambiguity nodes, and its costs are cleared, since they do not belong to the
reading.
-/

namespace ParseForest

section Rel

variable {α β : Type} (R : α → β → Prop)

inductive Arg.Rel : Arg α → Arg β → Prop
  | node {t : α} {u : β} (h : R t u) : Arg.Rel (.node t) (.node u)
  | list {ts : List α} {us : List β} (h : List.Forall₂ R ts us) : Arg.Rel (.list ts) (.list us)
  | text (s : String) : Arg.Rel (.text s) (.text s)

inductive Body.Rel : Body α → Body β → Prop
  | application {as : List (Arg α)} {bs : List (Arg β)} (h : List.Forall₂ (Arg.Rel R) as bs) :
    Body.Rel (.application as) (.application bs)
  | lexical (s : String) : Body.Rel (.lexical s) (.lexical s)
  | image (shape : Shape) {ts : List α} {us : List β} (h : List.Forall₂ R ts us) :
    Body.Rel (.image shape ts) (.image shape us)
  | token (leaf : Leaf) : Body.Rel (.token leaf) (.token leaf)

end Rel

namespace Arg

variable {α β : Type} {R : α → β → Prop} {a : Arg β}

theorem rel_node {t : α} : Rel R (.node t) a ↔ ∃ u, R t u ∧ a = .node u := by
  constructor
  · intro h
    cases h with
    | node h => exact ⟨_, h, rfl⟩
  · rintro ⟨u, h, rfl⟩
    exact .node h

theorem rel_list {ts : List α} :
    Rel R (.list ts) a ↔ ∃ us, List.Forall₂ R ts us ∧ a = .list us := by
  constructor
  · intro h
    cases h with
    | list h => exact ⟨_, h, rfl⟩
  · rintro ⟨us, h, rfl⟩
    exact .list h

end Arg

namespace Tree

/-- The second tree is the first with one alternative chosen at every ambiguity node. -/
inductive Resolves : Tree → Tree → Prop
  | choice {t a u : Tree} (mem : a ∈ t.alternatives) (h : Resolves a u) : Resolves t u
  | inside {t : Tree} {body : Body Tree} (single : t.isAmbiguity = false)
    (h : Body.Rel Resolves t.body body) :
    Resolves t ⟨t.sort, t.constructor, t.span, .zero, body⟩

variable {sort name : String} {span : Option Span} {cost : Cost} {u : Tree}

theorem resolves_lexical {text : String} :
    Resolves ⟨sort, name, span, cost, .lexical text⟩ u ↔
      u = ⟨sort, name, span, .zero, .lexical text⟩ := by
  constructor
  · intro h
    cases h with
    | choice mem _ => cases mem
    | inside _ h =>
      cases h
      rfl
  · rintro rfl
    exact .inside rfl (.lexical text)

theorem resolves_application {as : List (Arg Tree)} :
    Resolves ⟨sort, name, span, cost, .application as⟩ u ↔
      ∃ as', List.Forall₂ (Arg.Rel Resolves) as as' ∧
        u = ⟨sort, name, span, .zero, .application as'⟩ := by
  constructor
  · intro h
    cases h with
    | choice mem _ => cases mem
    | inside _ h =>
      cases h with
      | application h => exact ⟨_, h, rfl⟩
  · rintro ⟨as', h, rfl⟩
    exact .inside rfl (.application h)

theorem resolves_ambiguity {ts : List Tree} :
    Resolves ⟨sort, name, span, cost, .ambiguity ts⟩ u ↔ ∃ t ∈ ts, Resolves t u := by
  constructor
  · intro h
    cases h with
    | choice mem h => exact ⟨_, mem, h⟩
    | inside single _ => cases single
  · rintro ⟨t, mem, h⟩
    exact .choice mem h

end Tree

end ParseForest
