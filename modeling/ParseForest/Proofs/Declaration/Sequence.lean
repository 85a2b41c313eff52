import ParseForest.Proofs.Declaration.Making

/-!
Definitions made one after the other. What is there about a name in the end comes from the
definitions about it, so they can be made in every order that keeps the order of those about one
name. Main statements: `makeAll_about`, `makeAll_of_reorders`.
-/

namespace ParseForest

open Success

def makeAll (env : TypeEnv) (ds : List Definition) : Except Error TypeEnv :=
  ds.foldlM Definition.make env

section MakeAll

variable {env env' env₁ env₂ : TypeEnv} {ds ds' : List Definition} {name : String}

theorem makeAll_cons {d : Definition} :
    makeAll env (d :: ds) = .ok env' ↔ ∃ next, d.make env = .ok next ∧ makeAll next ds = .ok env' :=
  bind_eq_ok

theorem makeAll_append :
    makeAll env (ds ++ ds') = .ok env' ↔
      ∃ next, makeAll env ds = .ok next ∧ makeAll next ds' = .ok env' := by
  unfold makeAll
  rw [List.foldlM_append]
  exact bind_eq_ok

theorem makeAll_moduleName (h : makeAll env ds = .ok env') : env'.moduleName = env.moduleName := by
  induction ds generalizing env with
  | nil =>
    cases h
    rfl
  | cons d ds ih =>
    obtain ⟨next, hd, h⟩ := makeAll_cons.1 h
    exact (ih h).trans (Definition.make_moduleName hd)

def about (name : String) (ds : List Definition) : List Definition :=
  ds.filter fun d => d.subject = name

theorem makeAll_about (h : env₁.AgreeAt name env₂) (h₁ : makeAll env₁ ds = .ok env') :
    ∃ env'', makeAll env₂ (about name ds) = .ok env'' ∧ env'.AgreeAt name env'' := by
  induction ds generalizing env₁ env₂ with
  | nil =>
    cases h₁
    exact ⟨env₂, rfl, h⟩
  | cons d ds ih =>
    obtain ⟨next, hd, hrest⟩ := makeAll_cons.1 h₁
    by_cases hs : d.subject = name
    · subst hs
      obtain ⟨next₂, hd₂, hnext⟩ := d.make_local h hd
      obtain ⟨env'', hrest₂, hagree⟩ := ih hnext hrest
      refine ⟨env'', ?_, hagree⟩
      rw [about, List.filter_cons_of_pos (by simp)]
      exact makeAll_cons.2 ⟨next₂, hd₂, hrest₂⟩
    · obtain ⟨env'', hrest₂, hagree⟩ := ih ((Definition.make_frame hd hs).symm.trans h) hrest
      refine ⟨env'', ?_, hagree⟩
      rw [about, List.filter_cons_of_neg (by simpa using hs)]
      exact hrest₂

theorem makeAll_of_about
    (h : ∀ name, ∃ env', makeAll env (about name ds) = .ok env') :
    ∃ env', makeAll env ds = .ok env' := by
  induction ds generalizing env with
  | nil => exact ⟨env, rfl⟩
  | cons d ds ih =>
    obtain ⟨env', hall⟩ := h d.subject
    rw [about, List.filter_cons_of_pos (by simp)] at hall
    obtain ⟨next, hd, hown⟩ := makeAll_cons.1 hall
    obtain ⟨last, hlast⟩ : ∃ last, makeAll next ds = .ok last := by
      refine ih fun name => ?_
      by_cases hs : d.subject = name
      · subst hs
        exact ⟨env', hown⟩
      · obtain ⟨env'', hother⟩ := h name
        rw [about, List.filter_cons_of_neg (by simpa using hs)] at hother
        obtain ⟨last, hlast, _⟩ := makeAll_about (Definition.make_frame hd hs) hother
        exact ⟨last, by simpa [about] using hlast⟩
    exact ⟨last, makeAll_cons.2 ⟨next, hd, hlast⟩⟩

/-- The same definitions, with those about each name in the same order. -/
def Reorders (ds ds' : List Definition) : Prop := ∀ name, about name ds = about name ds'

theorem about_append (name : String) (ds ds' : List Definition) :
    about name (ds ++ ds') = about name ds ++ about name ds' :=
  List.filter_append ..

theorem Reorders.refl (ds : List Definition) : Reorders ds ds := fun _ => rfl

theorem Reorders.trans {ds'' : List Definition} (h : Reorders ds ds') (h' : Reorders ds' ds'') :
    Reorders ds ds'' := fun name => (h name).trans (h' name)

theorem Reorders.append {es es' : List Definition} (h : Reorders ds ds') (h' : Reorders es es') :
    Reorders (ds ++ es) (ds' ++ es') := by
  intro name
  rw [about_append, about_append, h name, h' name]

theorem makeAll_of_reorders (hds : Reorders ds ds') (halike : env₁.Alike env₂)
    (h₁ : makeAll env₁ ds = .ok env₁') :
    ∃ env₂', makeAll env₂ ds' = .ok env₂' ∧ env₁'.Alike env₂' := by
  obtain ⟨env₂', h₂⟩ : ∃ env₂', makeAll env₂ ds' = .ok env₂' := by
    refine makeAll_of_about fun name => ?_
    obtain ⟨env'', h, _⟩ := makeAll_about (halike.agreeAt name) h₁
    exact ⟨env'', hds name ▸ h⟩
  refine ⟨env₂', h₂, TypeEnv.alike_of_agreeAt ?_ fun name => ?_⟩
  · rw [makeAll_moduleName h₁, makeAll_moduleName h₂, halike.moduleName]
  · obtain ⟨a, ha, hagree₁⟩ := makeAll_about (.refl name env₂) h₂
    obtain ⟨b, hb, hagree₂⟩ := makeAll_about (halike.agreeAt name) h₁
    rw [hds name, ha] at hb
    cases hb
    exact hagree₂.trans hagree₁.symm

end MakeAll

namespace Journal

def note (j : Journal) (d : Definition) : Journal :=
  { j with definitions := j.definitions.push d }

def make (j : Journal) (d : Definition) : Except Error Journal :=
  (fun env => { j.note d with env }) <$> d.make j.env

variable {j j' : Journal}

theorem make_eq_ok {d : Definition} :
    j.make d = .ok j' ↔
      d.make j.env = .ok j'.env ∧ j'.definitions = j.definitions.push d := by
  unfold make
  rw [map_eq_ok]
  constructor
  · rintro ⟨env, h, rfl⟩
    exact ⟨h, rfl⟩
  · rintro ⟨h, hd⟩
    exact ⟨j'.env, h, by rw [note, ← hd]⟩

theorem exists_make {d : Definition} {env : TypeEnv} (h : d.make j.env = .ok env) :
    ∃ j', j.make d = .ok j' :=
  ⟨_, map_eq_ok.2 ⟨env, h, rfl⟩⟩

theorem make_eq_error {d : Definition} {e : Error} :
    j.make d = .error e ↔ d.make j.env = .error e := by
  unfold make
  cases d.make j.env <;> simp [Functor.map, Except.map]

def makeAll (j : Journal) (ds : List Definition) : Except Error Journal := ds.foldlM make j

theorem makeAll_cons {d : Definition} {ds : List Definition} :
    j.makeAll (d :: ds) = .ok j' ↔ ∃ next, j.make d = .ok next ∧ next.makeAll ds = .ok j' :=
  bind_eq_ok

theorem makeAll_append {ds ds' : List Definition} :
    j.makeAll (ds ++ ds') = .ok j' ↔
      ∃ next, j.makeAll ds = .ok next ∧ next.makeAll ds' = .ok j' := by
  unfold makeAll
  rw [List.foldlM_append]
  exact bind_eq_ok

theorem makeAll_eq_ok {ds : List Definition} :
    j.makeAll ds = .ok j' ↔ ParseForest.makeAll j.env ds = .ok j'.env ∧
      j'.definitions = j.definitions ++ ds.toArray := by
  induction ds generalizing j with
  | nil =>
    constructor
    · intro h
      cases h
      exact ⟨rfl, (Array.append_empty).symm⟩
    · rintro ⟨henv, hd⟩
      cases j
      cases j'
      cases henv
      cases hd.trans Array.append_empty
      rfl
  | cons d ds ih =>
    rw [makeAll_cons, ParseForest.makeAll_cons]
    constructor
    · rintro ⟨next, hnext, hrest⟩
      obtain ⟨hmade, hd⟩ := make_eq_ok.1 hnext
      obtain ⟨hall, hds⟩ := ih.1 hrest
      exact ⟨⟨next.env, hmade, hall⟩, by rw [hds, hd]; simp⟩
    · rintro ⟨⟨env, hmade, hall⟩, hds⟩
      refine ⟨⟨env, j.definitions.push d⟩, make_eq_ok.2 ⟨hmade, rfl⟩, ih.2 ⟨hall, ?_⟩⟩
      rw [hds]
      simp

end Journal

end ParseForest
