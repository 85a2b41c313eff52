import ParseForest.Registry.Basic

/-!
Registries without factories: every tree is made the default way. Definitions of sorts and
constructors keep a registry so. Main statements: `WithoutFactories.define`,
`defaultBody_of_no_text`, `make_cost`.
-/

namespace ParseForest

def SortEntry.WithoutFactories (e : SortEntry) : Prop :=
  ∀ name c, e.constructors.get? name = some c → c.factory = none

namespace SortEntry.WithoutFactories

variable {e : SortEntry} (h : e.WithoutFactories)
include h

theorem define (name : String) (shape : List ArgKind) : (e.define name shape).WithoutFactories := by
  intro name' c hc
  rw [SortEntry.define, Table.get?_insert] at hc
  split at hc
  · cases hc
    rfl
  · exact h name' c hc

theorem defineNew (name : String) (shape : List ArgKind) :
    (e.defineNew name shape).WithoutFactories := by
  unfold SortEntry.defineNew
  split
  · exact h
  · exact h.define name shape

theorem withReserved : e.withReserved.WithoutFactories := by
  unfold SortEntry.withReserved
  dsimp only
  split
  · exact (h.defineNew _ _).defineNew _ _
  · exact h.defineNew _ _

end SortEntry.WithoutFactories

namespace Registry

/-- All trees are made the default way. -/
def WithoutFactories (r : Registry) : Prop := ∀ sort e, r.sort? sort = some e → e.WithoutFactories

theorem withoutFactories_empty : empty.WithoutFactories := nofun

namespace WithoutFactories

variable {r : Registry} (h : r.WithoutFactories)
include h

theorem factory {sort name : String} {c : ConstructorEntry}
    (hc : r.constructor? sort name = some c) : c.factory = none := by
  obtain ⟨e, he, hc⟩ := Option.bind_eq_some_iff.1 hc
  exact h sort e he name c hc

theorem insert {sort : String} {e : SortEntry} (he : e.WithoutFactories) :
    WithoutFactories ⟨r.sorts.insert sort e⟩ := by
  intro sort' e' he'
  rw [sort?, Table.get?_insert] at he'
  split at he'
  · cases he'
    exact he
  · exact h sort' e' he'

theorem defineSort (sort : String) (lexical : Bool) :
    (r.defineSort sort lexical).WithoutFactories := by
  refine h.insert (SortEntry.WithoutFactories.withReserved fun name c hc => ?_)
  cases he : r.sort? sort with
  | none =>
    rw [he] at hc
    cases hc
  | some e =>
    rw [he] at hc
    exact h sort e he name c hc

theorem defineConstructor (sort name : String) (shape : List ArgKind) :
    (r.defineConstructor sort name shape).WithoutFactories := by
  have hs := h.defineSort sort false
  unfold Registry.defineConstructor updateSort
  split
  next e he => exact hs.insert ((hs sort e he).define name shape)
  next => exact hs

theorem define (d : SortDefinition) : (r.define d).WithoutFactories := by
  unfold Registry.define
  have hs := h.defineSort d.name d.lexical
  generalize r.defineSort d.name d.lexical = defined at hs
  induction d.constructors generalizing defined with
  | nil => exact hs
  | cons c cs ih => exact ih _ (hs.defineConstructor d.name c.1 c.2)

end WithoutFactories

theorem defaultBody_of_no_text {name : String} {args : List (Arg Tree)} (hn : name ≠ ambiguityName)
    (ha : ∀ a ∈ args, a.text? = none) : defaultBody name args = .application args := by
  unfold defaultBody
  split
  · rw [if_neg hn]
  · exact absurd (ha _ (List.mem_singleton_self _)) nofun
  · rfl

theorem defaultBody_cases (name : String) (args : List (Arg Tree)) :
    (∃ ts, name = ambiguityName ∧ args = [.list ts] ∧ defaultBody name args = .ambiguity ts) ∨
    (∃ s, name = lexicalName ∧ args = [.text s] ∧ defaultBody name args = .lexical s) ∨
    defaultBody name args = .application args := by
  unfold defaultBody
  split
  next ts =>
    split
    next h => exact .inl ⟨ts, h, rfl, rfl⟩
    next => exact .inr (.inr rfl)
  next s =>
    split
    next h => exact .inr (.inl ⟨s, h, rfl, rfl⟩)
    next => exact .inr (.inr rfl)
  next => exact .inr (.inr rfl)

theorem subtrees_defaultBody (name : String) (args : List (Arg Tree)) :
    (defaultBody name args).subtrees = args.flatMap Arg.trees := by
  obtain ⟨ts, -, rfl, h⟩ | ⟨s, -, rfl, h⟩ | h := defaultBody_cases name args
  all_goals
    rw [h]
    simp [Body.subtrees, Arg.trees]

theorem defaultBody_ne_image (name : String) (args : List (Arg Tree)) :
    ¬ ∃ ts, defaultBody name args = .image .ambiguity ts := by
  rintro ⟨ts, himage⟩
  obtain ⟨_, -, -, h⟩ | ⟨_, -, -, h⟩ | h := defaultBody_cases name args
  all_goals cases h.symm.trans himage

theorem make_cost {r : Registry} {sort name : String} {span : Option Span}
    {args : List (Arg Tree)} {cost : Cost} {t : Tree}
    (h : r.make sort name span args cost = .ok t) : t.cost = cost := by
  unfold make at h
  split at h
  · cases h
  · split at h
    · cases h
      rfl
    · cases h

end Registry

end ParseForest
