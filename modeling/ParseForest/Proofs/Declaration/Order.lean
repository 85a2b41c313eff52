import ParseForest.Proofs.Declaration.Evaluation

/-!
Declarations that introduce different names may stand in any order. The names come to stand for the
same types, and the definitions that follow are the same for each name. Main statement:
`evaluate_perm`.
-/

namespace ParseForest

open Success Declare

namespace Declare

section Plans

variable {α : Type} {plan : α → Except Error (List Definition)}

def Apart (plan : α → Except Error (List Definition)) (a b : α) : Prop :=
  ∀ p q, plan a = .ok p → plan b = .ok q → ∀ name, about name p = [] ∨ about name q = []

theorem Apart.symm {a b : α} (h : Apart plan a b) : Apart plan b a :=
  fun p q hp hq name => (h q p hq hp name).symm

theorem planAll_cons {a : α} {as : List α} :
    planAll plan (a :: as) = andThen (plan a) (planAll plan as) := rfl

theorem planAll_append {as bs : List α} {ds : List Definition} :
    planAll plan (as ++ bs) = .ok ds ↔ ∃ ds₁ ds₂, planAll plan as = .ok ds₁ ∧
      planAll plan bs = .ok ds₂ ∧ ds₁ ++ ds₂ = ds := by
  induction as generalizing ds with
  | nil =>
    constructor
    · intro h
      exact ⟨[], ds, rfl, h, rfl⟩
    · rintro ⟨_, _, hnil, h, rfl⟩
      cases hnil
      exact h
  | cons a as ih =>
    rw [List.cons_append, planAll_cons, planAll_cons, andThen_eq_ok]
    constructor
    · rintro ⟨p, rest, hp, hrest, rfl⟩
      obtain ⟨ds₁, ds₂, h₁, h₂, rfl⟩ := ih.1 hrest
      exact ⟨p ++ ds₁, ds₂, andThen_eq_ok.2 ⟨p, ds₁, hp, h₁, rfl⟩, h₂,
        List.append_assoc ..⟩
    · rintro ⟨_, ds₂, h, h₂, rfl⟩
      obtain ⟨p, ds₁, hp, h₁, rfl⟩ := andThen_eq_ok.1 h
      exact ⟨p, ds₁ ++ ds₂, hp, ih.2 ⟨ds₁, ds₂, h₁, h₂, rfl⟩,
        (List.append_assoc ..).symm⟩

theorem planAll_perm {as bs : List α} (h : as.Perm bs) (hapart : as.Pairwise (Apart plan))
    {ds : List Definition} (hds : planAll plan as = .ok ds) :
    ∃ ds', planAll plan bs = .ok ds' ∧ Reorders ds ds' := by
  induction h generalizing ds with
  | nil => exact ⟨ds, hds, .refl ds⟩
  | cons a _ ih =>
    rw [planAll_cons] at hds ⊢
    obtain ⟨p, rest, hp, hrest, rfl⟩ := andThen_eq_ok.1 hds
    obtain ⟨rest', hrest', hreorders⟩ := ih (List.pairwise_cons.1 hapart).2 hrest
    exact ⟨p ++ rest', andThen_eq_ok.2 ⟨p, rest', hp, hrest', rfl⟩,
      (Reorders.refl p).append hreorders⟩
  | swap a b l =>
    simp only [planAll_cons] at hds ⊢
    obtain ⟨p, _, hp, hothers, rfl⟩ := andThen_eq_ok.1 hds
    obtain ⟨q, rest, hq, hrest, rfl⟩ := andThen_eq_ok.1 hothers
    refine ⟨q ++ (p ++ rest), andThen_eq_ok.2 ⟨q, _, hq, andThen_eq_ok.2
      ⟨p, rest, hp, hrest, rfl⟩, rfl⟩, fun name => ?_⟩
    have hab : Apart plan b a := (List.pairwise_cons.1 hapart).1 a List.mem_cons_self
    simp only [about_append]
    rcases hab p q hp hq name with h | h
    · rw [h]
      simp
    · rw [h]
      simp
  | trans h₁ _ ih₁ ih₂ =>
    obtain ⟨ds₁, hds₁, hreorders₁⟩ := ih₁ hapart hds
    obtain ⟨ds₂, hds₂, hreorders₂⟩ :=
      ih₂ (hapart.perm h₁ fun hab => hab.symm) hds₁
    exact ⟨ds₂, hds₂, hreorders₁.trans hreorders₂⟩

end Plans

end Declare

namespace Declaration

theorem apart_of_ne {plan : Declaration → Except Error (List Definition)}
    (hplan : ∀ d : Declaration, AllAbout d.type.name.name (plan d)) {d d' : Declaration}
    (h : d.type.name.name ≠ d'.type.name.name) : Apart plan d d' := by
  intro p q hp hq name
  by_cases hname : d.type.name.name = name
  · refine .inr (List.filter_eq_nil_iff.2 fun x hx => ?_)
    have hx := hplan d' q hq x hx
    simp only [decide_eq_true_eq]
    rw [hx, ← hname]
    exact h.symm
  · refine .inl (List.filter_eq_nil_iff.2 fun x hx => ?_)
    have hx := hplan d p hp x hx
    simp only [decide_eq_true_eq]
    rw [hx]
    exact hname

theorem fillingPlan_perm {types : TypeEnv} {ds ds' : List Declaration} (hp : ds.Perm ds')
    (hnames : ds.Pairwise fun d d' => d.type.name.name ≠ d'.type.name.name)
    {defs : List Definition} (h : fillingPlan types ds = .ok defs) :
    ∃ defs', fillingPlan types ds' = .ok defs' ∧ Reorders defs defs' := by
  obtain ⟨as, bs, has, hbs, rfl⟩ := andThen_eq_ok.1 h
  obtain ⟨as', has', hra⟩ := planAll_perm hp
    (hnames.imp fun hne => apart_of_ne abstractPlan_about hne) has
  obtain ⟨bs', hbs', hrb⟩ := planAll_perm hp
    (hnames.imp fun hne => apart_of_ne dataPlan_about hne) hbs
  exact ⟨as' ++ bs', andThen_eq_ok.2 ⟨as', bs', has', hbs', rfl⟩, hra.append hrb⟩

theorem evaluate_of_perm {ds ds' : List Declaration} (hp : ds.Perm ds')
    (hd : (ds.filterMap introduced?).Nodup) {j j₁ : Journal} (h : evaluate ds j = .ok () j₁) :
    ∃ j₂, evaluate ds' j = .ok () j₂ ∧ j₁.env.Alike j₂.env := by
  obtain ⟨m, hsettled⟩ := settle_of_evaluate h
  have hwaiting : (waiting ds).Perm (waiting ds') :=
    ((waiting_perm ds).trans (hp.map pending)).trans (waiting_perm ds').symm
  obtain ⟨m', hsettled', halike⟩ := settle_perm hwaiting (distinct_waiting hd) hsettled
  -- Both orders fill in the types that the first one has declared by now.
  obtain ⟨defs, hplan, hmade⟩ := (evaluate_eq_ok_iff hsettled (.refl m.env)).1 h
  obtain ⟨defs', hplan', hreorders⟩ :=
    fillingPlan_perm hp (names_ne (introduced?_of_evaluate h) hd) hplan
  obtain ⟨env', hmade', hend⟩ :=
    makeAll_of_reorders hreorders halike (Journal.makeAll_eq_ok.1 hmade).1
  refine ⟨⟨env', m'.definitions ++ defs'.toArray⟩, ?_, hend⟩
  refine (evaluate_eq_ok_iff hsettled' halike.sameTypes).2 ⟨defs', hplan', ?_⟩
  exact Journal.makeAll_eq_ok.2 ⟨hmade', rfl⟩

def succeeds : EStateM.Result Error Journal Unit → Bool
  | .ok .. => true
  | .error .. => false

theorem exists_of_succeeds {x : EStateM.Result Error Journal Unit} (h : succeeds x = true) :
    ∃ j, x = .ok () j := by
  cases x with
  | ok _ j => exact ⟨j, rfl⟩
  | error e j => cases h

/-- Two evaluations that both fail, or leave environments that hold the same. -/
def Agrees : EStateM.Result Error Journal Unit → EStateM.Result Error Journal Unit → Prop
  | .ok _ j, .ok _ j' => j.env.Alike j'.env
  | .error .., .error .. => True
  | _, _ => False

/-- The order of declarations that introduce different names decides neither whether they can be
evaluated nor what is declared in the end. -/
theorem evaluate_perm {ds ds' : List Declaration} (hp : ds.Perm ds')
    (hd : (ds.filterMap introduced?).Nodup) (j : Journal) :
    Agrees (evaluate ds j) (evaluate ds' j) := by
  cases h : evaluate ds j with
  | ok a j₁ =>
    obtain ⟨j₂, h', halike⟩ := evaluate_of_perm hp hd h
    rw [h']
    exact halike
  | error e j₁ =>
    cases h' : evaluate ds' j with
    | ok a j₂ =>
      have hd' : (ds'.filterMap introduced?).Nodup := (hp.filterMap introduced?).nodup_iff.1 hd
      obtain ⟨j₃, h'', _⟩ := evaluate_of_perm hp.symm hd' h'
      cases h.symm.trans h''
    | error e' j₂ => trivial

def byName (name : String) : TypeReference TypeExpr := ⟨⟨[], name⟩, [], none⟩

def referringForward : List Declaration :=
  [.data ⟨⟨[], "Forest"⟩, [.typeVar "T" (some (.user (byName "Trees")))], none⟩ []
      [⟨"plant", [⟨.user (byName "Trees"), some "trees"⟩, ⟨.user (byName "Forest"), none⟩], []⟩],
    .synonym (byName "Trees") (.structured .list [⟨.user (byName "Tree"), none⟩]),
    .abstractData (byName "Tree") []]

theorem evaluate_referringForward :
    Agrees (evaluate referringForward (.ofEnv (.empty none)))
        (evaluate referringForward.reverse (.ofEnv (.empty none))) ∧
      (match evaluate referringForward (.ofEnv (.empty none)) with
        | .ok _ j => j.env.dataTypes.keys
        | .error .. => []) = ["Tree", "Forest"] :=
  ⟨evaluate_perm (List.reverse_perm referringForward).symm (by decide) _, by decide +kernel⟩

end Declaration

end ParseForest
