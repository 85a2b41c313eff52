import ParseForest.Proofs.Declaration.Repetition

/-!
Type names declared over those that an evaluation has left behind. What is left behind is settled,
and what a name stands for depends on the types alone; so the missing names can be declared on top
of it as they can be on the way from the start. Main statements: `declareAll_sameTypes`,
`settle_over_residue`.
-/

namespace ParseForest

open Success

namespace TypeEnv.SameTypes

variable {env₁ env₂ env₁' : TypeEnv} {name : String} {t : Ty}

theorem dataTypes (h : SameTypes env₁ env₂) (name : String) :
    env₁.dataTypes.get? name = env₂.dataTypes.get? name :=
  congrArg Prod.fst (h.entry name)

theorem synonyms (h : SameTypes env₁ env₂) (name : String) :
    env₁.synonyms.get? name = env₂.synonyms.get? name :=
  congrArg Prod.snd (h.entry name)

theorem declareData {parameters : List Ty} (h : SameTypes env₁ env₂)
    (h₁ : env₁.declareData name parameters = .ok (env₁', t)) :
    ∃ env₂', env₂.declareData name parameters = .ok (env₂', t) ∧ SameTypes env₁' env₂' := by
  have hcases := declareData_eq_ok.1 h₁
  rw [h.dataTypes, h.synonyms] at hcases
  obtain ⟨hs, ⟨ps, hd, hl, rfl, ht⟩ | ⟨hd, ht, rfl⟩⟩ := hcases
  · exact ⟨env₂, declareData_eq_ok.2 ⟨hs, .inl ⟨ps, hd, hl, rfl, ht⟩⟩, h⟩
  · refine ⟨_, declareData_eq_ok.2 ⟨hs, .inr ⟨hd, ht, rfl⟩⟩, h.moduleName, fun n => ?_⟩
    simp only [TypeEnv.entry, Table.get?_insert, h.dataTypes, h.synonyms]

theorem declareSynonym {parameters : List Ty} {aliased : Ty} (h : SameTypes env₁ env₂)
    (h₁ : env₁.declareSynonym name parameters aliased = .ok (env₁', t)) :
    ∃ env₂', env₂.declareSynonym name parameters aliased = .ok (env₂', t) ∧
      SameTypes env₁' env₂' := by
  have hcases := declareSynonym_eq_ok.1 h₁
  rw [h.dataTypes, h.synonyms] at hcases
  obtain ⟨hd, ht, ⟨hs, rfl⟩ | ⟨hs, rfl⟩⟩ := hcases
  · exact ⟨env₂, declareSynonym_eq_ok.2 ⟨hd, ht, .inl ⟨hs, rfl⟩⟩, h⟩
  · refine ⟨_, declareSynonym_eq_ok.2 ⟨hd, ht, .inr ⟨hs, rfl⟩⟩, h.moduleName, fun n => ?_⟩
    simp only [TypeEnv.entry, Table.get?_insert, h.dataTypes, h.synonyms]

end TypeEnv.SameTypes

namespace Declare

open Pending

variable {j j' k m a : Journal} {p : Pending} {ps qs rs stuck ws : List Pending}

theorem trial_sameTypes (h : p.trial j = .ok j') (hsame : j.env.SameTypes k.env) :
    ∃ k', p.trial k = .ok k' ∧ j'.env.SameTypes k'.env := by
  obtain ⟨d, hd, hmade, _⟩ := trial_inv h
  have hd' : p.resolve k.env = .ok d := (resolve_within hsame.within p).ok hd
  obtain ⟨env, hmade', hsame'⟩ : ∃ env, d.make k.env = .ok env ∧ j'.env.SameTypes env := by
    cases p with
    | data type =>
      obtain ⟨_, formals, _, rfl⟩ := resolve_data_eq_ok.1 hd
      obtain ⟨⟨_, t⟩, hdeclared, henv⟩ := map_eq_ok.1 hmade
      obtain ⟨env, hdeclared', hsame'⟩ := hsame.declareData hdeclared
      exact ⟨env, map_eq_ok.2 ⟨_, hdeclared', rfl⟩, henv ▸ hsame'⟩
    | synonym type base =>
      obtain ⟨_, formals, aliased, _, _, rfl⟩ := resolve_synonym_eq_ok.1 hd
      obtain ⟨⟨_, t⟩, hdeclared, henv⟩ := map_eq_ok.1 hmade
      obtain ⟨env, hdeclared', hsame'⟩ := hsame.declareSynonym hdeclared
      exact ⟨env, map_eq_ok.2 ⟨_, hdeclared', rfl⟩, henv ▸ hsame'⟩
  exact ⟨⟨env, k.definitions.push d⟩,
    trial_eq_ok.2 ⟨d, hd', Journal.make_eq_ok.2 ⟨hmade', rfl⟩⟩, hsame'⟩

theorem declareAll_sameTypes (h : declareAll j ps = .ok j') (hsame : j.env.SameTypes k.env) :
    ∃ k', declareAll k ps = .ok k' ∧ j'.env.SameTypes k'.env := by
  induction ps generalizing j k with
  | nil =>
    cases h
    exact ⟨k, rfl, hsame⟩
  | cons p ps ih =>
    obtain ⟨next, hp, hrest⟩ := declareAll_cons.1 h
    obtain ⟨next', hp', hnext⟩ := trial_sameTypes hp hsame
    obtain ⟨k', hrest', hsame'⟩ := ih hrest hnext
    exact ⟨k', declareAll_cons.2 ⟨next', hp', hrest'⟩, hsame'⟩

theorem trial_rest (h : p.trial j = .ok j') :
    j'.env.constructors = j.env.constructors ∧ j'.env.keywords = j.env.keywords := by
  obtain ⟨d, hd, hmade, _⟩ := trial_inv h
  refine ⟨?_, (Definition.make_addKeywords hmade).trans (addKeywords_of_resolve hd _)⟩
  obtain ⟨_, henv⟩ | ⟨_, _, _, _, henv⟩ | ⟨_, _, _, _, _, henv⟩ | ⟨_, _, _, _, rfl, _⟩ :=
    Definition.make_inv hmade
  · rw [← henv]
  · rw [← henv]
  · rw [← henv]
  · cases p with
    | data type =>
      obtain ⟨_, _, _, heq⟩ := resolve_data_eq_ok.1 hd
      cases heq
    | synonym type base =>
      obtain ⟨_, _, _, _, _, heq⟩ := resolve_synonym_eq_ok.1 hd
      cases heq

theorem declareAll_rest (h : declareAll j ps = .ok j') :
    j'.env.constructors = j.env.constructors ∧ j'.env.keywords = j.env.keywords := by
  induction ps generalizing j with
  | nil =>
    cases h
    exact ⟨rfl, rfl⟩
  | cons p ps ih =>
    obtain ⟨next, hp, hrest⟩ := declareAll_cons.1 h
    obtain ⟨hc, hk⟩ := trial_rest hp
    obtain ⟨hc', hk'⟩ := ih hrest
    exact ⟨hc'.trans hc, hk'.trans hk⟩

theorem settle_rest (h : settle ws j = .ok () j') :
    j'.env.constructors = j.env.constructors ∧ j'.env.keywords = j.env.keywords := by
  obtain ⟨ps, _, hall⟩ := exists_of_settle h
  exact declareAll_rest hall

theorem exists_rest (hps : declareAll j ps = .ok j') (hqs : declareAll j qs = .ok m)
    (hperm : ps.Perm (qs ++ stuck)) (hd : Distinct ps) :
    ∃ rs m', rs.Perm stuck ∧ declareAll m rs = .ok m' := by
  rcases settle_cases stuck m with ⟨m', _, rs, hrs, hall⟩ |
    ⟨e, _, _, rs, stuck', middle, hrs, hall, hstuck, _⟩
  · exact ⟨rs, m', hrs, hall⟩
  · have hqs' : declareAll j (qs ++ rs) = .ok middle := declareAll_append.2 ⟨m, hqs, hall⟩
    have hperm' : ps.Perm ((qs ++ rs) ++ stuck') := by
      rw [List.append_assoc]
      exact hperm.trans (hrs.symm.append_left qs)
    exact absurd hstuck (not_sticks_of_declareAll hps hqs' hperm' hd e)

section OverResidue

variable (hqs : declareAll j qs = .ok m) (hsame : m.env.SameTypes k.env)
  (hperm : (qs ++ stuck).Perm ws) (hd : Distinct ws)
include hqs hsame hperm hd

theorem settle_of_rest (hrs : rs.Perm stuck) (hrest : declareAll m rs = .ok a) :
    ∃ m₁ m₂, settle ws j = .ok () m₁ ∧ settle ws k = .ok () m₂ ∧
      m₁.env.SameTypes m₂.env ∧ m.env.Within m₁.env := by
  have hws : (qs ++ rs).Perm ws := (hrs.append_left qs).trans hperm
  have hd' : Distinct (qs ++ rs) := hd.perm hws.symm
  have hall : declareAll j (qs ++ rs) = .ok a := declareAll_append.2 ⟨m, hqs, hrest⟩
  obtain ⟨k', hqs', hk'⟩ := declareAll_of_settled fun p hp =>
    (declareAll_settled hqs hp).within hsame.within
  obtain ⟨b, hrest', hsame'⟩ := declareAll_sameTypes (k := k') hrest (hk' ▸ hsame)
  have hall' : declareAll k (qs ++ rs) = .ok b := declareAll_append.2 ⟨k', hqs', hrest'⟩
  obtain ⟨m₁, hm₁, halike₁⟩ := settle_of_declareAll hall hws hd'
  obtain ⟨m₂, hm₂, halike₂⟩ := settle_of_declareAll hall' hws hd'
  refine ⟨m₁, m₂, hm₁, hm₂, ?_, ?_⟩
  · exact halike₁.sameTypes.symm.trans (hsame'.trans halike₂.sameTypes)
  · exact (declareAll_within hrest).trans halike₁.sameTypes.within

theorem settle_over_residue
    (h : (∃ m₁, settle ws j = .ok () m₁) ∨ ∃ m₂, settle ws k = .ok () m₂) :
    ∃ m₁ m₂, settle ws j = .ok () m₁ ∧ settle ws k = .ok () m₂ ∧
      m₁.env.SameTypes m₂.env ∧ m.env.Within m₁.env := by
  obtain ⟨rs, a, hrs, hrest⟩ : ∃ rs a, rs.Perm stuck ∧ declareAll m rs = .ok a := by
    rcases h with ⟨m₁, hsettled⟩ | ⟨m₂, hsettled⟩
    · obtain ⟨ps, hps, hall⟩ := exists_of_settle hsettled
      exact exists_rest hall hqs (hps.trans hperm.symm) (hd.perm hps.symm)
    · obtain ⟨ps, hps, hall⟩ := exists_of_settle hsettled
      obtain ⟨k', hqs', hk'⟩ := declareAll_of_settled fun p hp =>
        (declareAll_settled hqs hp).within hsame.within
      obtain ⟨rs, b, hrs, hrest⟩ :=
        exists_rest hall hqs' (hps.trans hperm.symm) (hd.perm hps.symm)
      obtain ⟨a, hrest', _⟩ := declareAll_sameTypes (k := m) hrest (hk' ▸ hsame.symm)
      exact ⟨rs, a, hrs, hrest'⟩
  exact settle_of_rest hqs hsame hperm hd hrs hrest

end OverResidue

end Declare

end ParseForest
