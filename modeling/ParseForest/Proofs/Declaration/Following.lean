import ParseForest.Proofs.Declaration.Trial

/-!
Steps that follow a plan. Once all type names stand for what they will, which definitions a step
makes depends on the types alone and not on what other steps have made, so they can be told in
advance; whether they can all be made is another matter. Of a step that fails the definitions before
the failure stay; they are the first ones of its plan. Main statements: `Follows.bind`,
`Leaves.bind`, `leaves_read`, `leaves_forM`.
-/

namespace ParseForest

open Success

namespace TypeEnv

structure SameTypes (types env : TypeEnv) : Prop where
  moduleName : types.moduleName = env.moduleName
  entry : ∀ name, types.entry name = env.entry name

variable {types env env' : TypeEnv}

theorem SameTypes.refl (types : TypeEnv) : SameTypes types types := ⟨rfl, fun _ => rfl⟩

theorem SameTypes.symm (h : SameTypes types env) : SameTypes env types :=
  ⟨h.moduleName.symm, fun name => (h.entry name).symm⟩

theorem SameTypes.trans (h : SameTypes types env) (h' : SameTypes env env') :
    SameTypes types env' :=
  ⟨h.moduleName.trans h'.moduleName, fun name => (h.entry name).trans (h'.entry name)⟩

theorem SameTypes.within (h : SameTypes types env) : types.Within env :=
  ⟨h.moduleName, fun name => .inr (h.entry name)⟩

theorem SameTypes.within' (h : SameTypes types env) : env.Within types :=
  ⟨h.moduleName.symm, fun name => .inr (h.entry name).symm⟩

theorem Alike.sameTypes (h : Alike types env) : SameTypes types env :=
  ⟨h.moduleName, fun name => (h.agreeAt name).entry⟩

end TypeEnv

open TypeEnv

def Definition.KeepsTypes (types : TypeEnv) (d : Definition) : Prop :=
  ∀ env env', types.SameTypes env → d.make env = .ok env' → types.SameTypes env'

theorem Definition.keepsTypes_of_subject {types : TypeEnv} {d : Definition}
    (h : types.entry d.subject ≠ (none, none)) : d.KeepsTypes types := by
  intro env env' hsame hmade
  have hwithin := make_within hmade
  refine hsame.trans ⟨hwithin.moduleName, fun name => ?_⟩
  by_cases hn : d.subject = name
  · subst hn
    exact (hwithin.entry d.subject).resolve_left fun hnone => h ((hsame.entry _).trans hnone)
  · exact (make_frame hmade hn).entry

theorem sameTypes_of_makeAll {types env env' : TypeEnv} {ds : List Definition}
    (hd : ∀ d ∈ ds, d.KeepsTypes types) (hsame : types.SameTypes env)
    (h : makeAll env ds = .ok env') : types.SameTypes env' := by
  induction ds generalizing env with
  | nil =>
    cases h
    exact hsame
  | cons d ds ih =>
    obtain ⟨next, hnext, hrest⟩ := makeAll_cons.1 h
    obtain ⟨hkeeps, hds⟩ := List.forall_mem_cons.1 hd
    exact ih hds (hkeeps env next hsame hnext) hrest

theorem makeAll_sameTypes {types : TypeEnv} {j j' : Journal} {ds : List Definition}
    (hd : ∀ d ∈ ds, d.KeepsTypes types) (hsame : types.SameTypes j.env)
    (h : j.makeAll ds = .ok j') : types.SameTypes j'.env :=
  sameTypes_of_makeAll hd hsame (Journal.makeAll_eq_ok.1 h).1

namespace Declare

variable {α β γ : Type} {types : TypeEnv}

/-- Where the types are `types`, `x` makes the definitions of `plan` one after the other and gives
`a`, and it fails where one of them is refused or there is no plan. -/
structure Follows (types : TypeEnv) (x : Declare α) (a : α)
    (plan : Except Error (List Definition)) : Prop where
  eq_ok_iff : ∀ j, types.SameTypes j.env → ∀ b j', x j = .ok b j' ↔
    a = b ∧ ∃ ds, plan = .ok ds ∧ j.makeAll ds = .ok j'
  keeps : ∀ ds, plan = .ok ds → ∀ d ∈ ds, d.KeepsTypes types

def andThen (p q : Except Error (List Definition)) : Except Error (List Definition) := do
  return (← p) ++ (← q)

theorem andThen_eq_ok {p q : Except Error (List Definition)} {ds : List Definition} :
    andThen p q = .ok ds ↔ ∃ ds₁ ds₂, p = .ok ds₁ ∧ q = .ok ds₂ ∧ ds₁ ++ ds₂ = ds := by
  unfold andThen
  simp only [bind_eq_ok, pure_eq_ok]
  constructor
  · rintro ⟨ds₁, h₁, ds₂, h₂, h⟩
    exact ⟨ds₁, ds₂, h₁, h₂, h⟩
  · rintro ⟨ds₁, ds₂, h₁, h₂, h⟩
    exact ⟨ds₁, h₁, ds₂, h₂, h⟩

theorem run_bind_eq_ok {x : Declare α} {f : α → Declare β} {j j' : Journal} {b : β} :
    (x >>= f) j = .ok b j' ↔ ∃ a m, x j = .ok a m ∧ f a m = .ok b j' := by
  rw [run_bind]
  cases x j with
  | ok a m =>
    constructor
    · intro h
      exact ⟨a, m, rfl, h⟩
    · rintro ⟨_, _, hx, h⟩
      cases hx
      exact h
  | error e m =>
    constructor
    · intro h
      cases h
    · rintro ⟨_, _, hx, _⟩
      cases hx

theorem follows_pure (a : α) : Follows types (pure a) a (.ok []) where
  eq_ok_iff j _ b j' := by
    constructor
    · intro h
      cases h
      exact ⟨rfl, [], rfl, rfl⟩
    · rintro ⟨rfl, ds, hds, h⟩
      cases hds
      cases h
      rfl
  keeps ds hds := by
    cases hds
    simp

theorem follows_throw (e : Error) (a : α) : Follows types (throw e) a (.error e) where
  eq_ok_iff j _ b j' := by
    constructor
    · intro h
      cases h
    · rintro ⟨_, ds, hds, _⟩
      cases hds
  keeps ds hds := by cases hds

theorem Follows.bind {x : Declare α} {f : α → Declare β} {a : α} {b : β}
    {p q : Except Error (List Definition)} (hx : Follows types x a p)
    (hf : Follows types (f a) b q) : Follows types (x >>= f) b (andThen p q) where
  eq_ok_iff j hsame c j' := by
    rw [run_bind_eq_ok]
    constructor
    · rintro ⟨_, m, hxm, hfm⟩
      obtain ⟨rfl, ds, hds, hm⟩ := (hx.eq_ok_iff j hsame _ m).1 hxm
      have hsame' := makeAll_sameTypes (hx.keeps ds hds) hsame hm
      obtain ⟨hc, ds', hds', hj'⟩ := (hf.eq_ok_iff m hsame' c j').1 hfm
      exact ⟨hc, ds ++ ds', andThen_eq_ok.2 ⟨ds, ds', hds, hds', rfl⟩,
        Journal.makeAll_append.2 ⟨m, hm, hj'⟩⟩
    · rintro ⟨hc, _, hall, hj'⟩
      obtain ⟨ds, ds', hds, hds', rfl⟩ := andThen_eq_ok.1 hall
      obtain ⟨m, hm, hj'⟩ := Journal.makeAll_append.1 hj'
      have hsame' := makeAll_sameTypes (hx.keeps ds hds) hsame hm
      exact ⟨a, m, (hx.eq_ok_iff j hsame a m).2 ⟨rfl, ds, hds, hm⟩,
        (hf.eq_ok_iff m hsame' c j').2 ⟨hc, ds', hds', hj'⟩⟩
  keeps ds hds d hd := by
    obtain ⟨ds₁, ds₂, h₁, h₂, rfl⟩ := andThen_eq_ok.1 hds
    rcases List.mem_append.1 hd with hd | hd
    · exact hx.keeps ds₁ h₁ d hd
    · exact hf.keeps ds₂ h₂ d hd

theorem follows_read {g : TypeEnv → Except Error γ} {f : γ → Declare α} {a : α}
    {plan : γ → Except Error (List Definition)}
    (hg : ∀ env env' : TypeEnv, env.Within env' → Foretells (g env) (g env'))
    (hf : ∀ c, g types = .ok c → Follows types (f c) a (plan c)) :
    Follows types (env >>= fun env => liftM (g env) >>= f) a (g types >>= plan) where
  eq_ok_iff j hsame b j' := by
    have hread : ∀ c, g j.env = .ok c ↔ g types = .ok c := fun c =>
      ⟨(hg _ _ hsame.within').ok, (hg _ _ hsame.within).ok⟩
    have hrun : (env >>= fun env => liftM (g env) >>= f) j = .ok b j' ↔
        ∃ c, g j.env = .ok c ∧ f c j = .ok b j' := by
      show (liftM (g j.env) >>= f) j = .ok b j' ↔ _
      rw [run_bind, run_lift]
      cases g j.env with
      | error e => simp
      | ok c => simp
    rw [hrun]
    constructor
    · rintro ⟨c, hc, h⟩
      have hc' := (hread c).1 hc
      obtain ⟨hb, ds, hds, hj'⟩ := ((hf c hc').eq_ok_iff j hsame b j').1 h
      exact ⟨hb, ds, bind_eq_ok.2 ⟨c, hc', hds⟩, hj'⟩
    · rintro ⟨hb, ds, hds, hj'⟩
      obtain ⟨c, hc, hds⟩ := bind_eq_ok.1 hds
      exact ⟨c, (hread c).2 hc, ((hf c hc).eq_ok_iff j hsame b j').2 ⟨hb, ds, hds, hj'⟩⟩
  keeps ds hds := by
    obtain ⟨c, hc, hds⟩ := bind_eq_ok.1 hds
    exact (hf c hc).keeps ds hds

def planAll (plan : α → Except Error (List Definition)) (as : List α) :
    Except Error (List Definition) :=
  as.foldr (fun a rest => andThen (plan a) rest) (.ok [])

section Leaves

variable {types' : TypeEnv} {a : α} {b : β} {p p' q q' : Except Error (List Definition)}

/-- The step follows `plan`, which becomes `plan'` where more types are declared, and if it fails
then after the first definitions of `plan'`. -/
structure Leaves (types : TypeEnv) (x : Declare α) (a : α)
    (plan plan' : Except Error (List Definition)) : Prop where
  follows : Follows types x a plan
  foretells : Foretells plan plan'
  residue : ∀ j e j', types.SameTypes j.env → x j = .error e j' →
    ∃ made, makeAll j.env made = .ok j'.env ∧ types.SameTypes j'.env ∧
      ∀ defs, plan' = .ok defs → made <+: defs

theorem leaves_of_unchanged {x : Declare α} (h : Follows types x a p)
    (hfail : ∀ j e j', x j = .error e j' → j'.env = j.env) : Leaves types x a p p where
  follows := h
  foretells := .refl p
  residue j e j' hsame hrun := by
    rw [hfail j e j' hrun]
    exact ⟨[], rfl, hsame, fun defs _ => List.nil_prefix⟩

theorem leaves_pure (a : α) : Leaves types (pure a) a (.ok []) (.ok []) :=
  leaves_of_unchanged (follows_pure a) fun j e j' hrun => by cases hrun

theorem leaves_throw (e : Error) (a : α) :
    Leaves types (throw e) a (.error e) (.error e) :=
  leaves_of_unchanged (follows_throw e a) fun j e' j' hrun => by
    cases hrun
    rfl

theorem foretells_andThen (hp : Foretells p p') (hq : Foretells q q') :
    Foretells (andThen p q) (andThen p' q') :=
  hp.bind fun _ _ => hq.bind fun _ _ => .refl _

theorem Leaves.bind {x : Declare α} {f : α → Declare β} (hx : Leaves types x a p p')
    (hf : Leaves types (f a) b q q') :
    Leaves types (x >>= f) b (andThen p q) (andThen p' q') where
  follows := hx.follows.bind hf.follows
  foretells := foretells_andThen hx.foretells hf.foretells
  residue j e j' hsame hrun := by
    rw [run_bind] at hrun
    cases hxj : x j with
    | error e₁ j₁ =>
      rw [hxj] at hrun
      cases hrun
      obtain ⟨made, hmade, hsame', hfirst⟩ := hx.residue j e j' hsame hxj
      refine ⟨made, hmade, hsame', fun defs hdefs => ?_⟩
      obtain ⟨ds₁, ds₂, h₁, _, rfl⟩ := andThen_eq_ok.1 hdefs
      exact (hfirst ds₁ h₁).trans (List.prefix_append ds₁ ds₂)
    | ok c m =>
      rw [hxj] at hrun
      obtain ⟨rfl, ds, hds, hm⟩ := (hx.follows.eq_ok_iff j hsame c m).1 hxj
      have hsame' : types.SameTypes m.env :=
        makeAll_sameTypes (hx.follows.keeps ds hds) hsame hm
      obtain ⟨made, hmade, hsame'', hfirst⟩ := hf.residue m e j' hsame' hrun
      refine ⟨ds ++ made, ?_, hsame'', fun defs hdefs => ?_⟩
      · exact makeAll_append.2 ⟨m.env, (Journal.makeAll_eq_ok.1 hm).1, hmade⟩
      · obtain ⟨ds₁, ds₂, h₁, h₂, rfl⟩ := andThen_eq_ok.1 hdefs
        cases (hx.foretells.ok hds).symm.trans h₁
        exact (List.prefix_append_right_inj ds).2 (hfirst ds₂ h₂)

theorem leaves_read {g : TypeEnv → Except Error γ} {f : γ → Declare α}
    {plan plan' : γ → Except Error (List Definition)} (hwithin : types.Within types')
    (hg : ∀ env env' : TypeEnv, env.Within env' → Foretells (g env) (g env'))
    (hf : ∀ c, g types = .ok c → Leaves types (f c) a (plan c) (plan' c)) :
    Leaves types (env >>= fun env => liftM (g env) >>= f) a (g types >>= plan)
      (g types' >>= plan') where
  follows := follows_read hg fun c hc => (hf c hc).follows
  foretells := (hg types types' hwithin).bind fun c hc => (hf c hc).foretells
  residue j e j' hsame hrun := by
    have hrun : (liftM (g j.env) >>= f) j = .error e j' := hrun
    rw [run_bind, run_lift] at hrun
    cases hc : g j.env with
    | error e₁ =>
      rw [hc] at hrun
      cases hrun
      exact ⟨[], rfl, hsame, fun defs _ => List.nil_prefix⟩
    | ok c =>
      rw [hc] at hrun
      have hc' : g types = .ok c := (hg _ _ hsame.within').ok hc
      obtain ⟨made, hmade, hsame', hfirst⟩ := (hf c hc').residue j e j' hsame hrun
      refine ⟨made, hmade, hsame', fun defs hdefs => ?_⟩
      rw [(hg types types' hwithin).ok hc'] at hdefs
      exact hfirst defs hdefs

theorem leaves_forM {f : α → Declare PUnit} {plan plan' : α → Except Error (List Definition)}
    {as : List α} (h : ∀ a ∈ as, Leaves types (f a) () (plan a) (plan' a)) :
    Leaves types (as.forM f) () (planAll plan as) (planAll plan' as) := by
  induction as with
  | nil => exact leaves_pure ()
  | cons a as ih =>
    obtain ⟨ha, has⟩ := List.forall_mem_cons.1 h
    exact ha.bind (ih has)

end Leaves

def AllAbout (name : String) (plan : Except Error (List Definition)) : Prop :=
  ∀ ds, plan = .ok ds → ∀ d ∈ ds, d.subject = name

namespace AllAbout

variable {name : String} {types : TypeEnv} {p q : Except Error (List Definition)}

theorem nil : AllAbout name (.ok []) := by
  intro ds hds
  cases hds
  simp

theorem error (e : Error) : AllAbout name (.error e) := by
  intro ds hds
  cases hds

theorem singleton {d : Definition} (h : d.subject = name) : AllAbout name (.ok [d]) := by
  intro ds hds
  cases hds
  exact List.forall_mem_singleton.2 h

theorem bind {γ : Type} {x : Except Error γ} {f : γ → Except Error (List Definition)}
    (h : ∀ c, AllAbout name (f c)) : AllAbout name (x >>= f) := by
  intro ds hds
  obtain ⟨c, _, hds⟩ := bind_eq_ok.1 hds
  exact h c ds hds

theorem andThen (hp : AllAbout name p) (hq : AllAbout name q) :
    AllAbout name (andThen p q) := by
  intro ds hds d hd
  obtain ⟨ds₁, ds₂, h₁, h₂, rfl⟩ := andThen_eq_ok.1 hds
  rcases List.mem_append.1 hd with hd | hd
  · exact hp ds₁ h₁ d hd
  · exact hq ds₂ h₂ d hd

end AllAbout

end Declare

end ParseForest
