import Mathlib.Data.List.Induction
import ParseForest.Proofs.Declaration.Settling

/-!
Type names that are all different come to be declared in every order or in none, and what they
stand for is the same. Whatever was declared on one way is declared on every other way as well, as
soon as the types it refers to are; so the ways can only differ in when. Main statements:
`declareAll_agree`, `settle_perm`.
-/

namespace ParseForest.Declare

open Success Pending

variable {j j' j₁ j₂ : Journal} {p q : Pending} {ps qs ws ws' : List Pending} {name : String}

theorem resolve_within {env env' : TypeEnv} (h : env.Within env') (p : Pending) :
    Foretells (p.resolve env) (p.resolve env') := by
  cases p with
  | data type =>
    exact (Foretells.refl _).bind fun _ _ => (h.formalsOf type).bind fun _ _ => .refl _
  | synonym type base =>
    refine (h.typeOf base).bind fun _ _ => (Foretells.refl _).bind fun _ _ => ?_
    exact (h.formalsOf type).bind fun _ _ => .refl _

theorem trial_inv (h : p.trial j = .ok j') :
    ∃ d, p.resolve j.env = .ok d ∧ d.make j.env = .ok j'.env ∧ p.name? = some d.subject := by
  obtain ⟨d, hd, hmade⟩ := trial_eq_ok.1 h
  exact ⟨d, hd, (Journal.make_eq_ok.1 hmade).1, resolve_subject hd⟩

theorem declareAll_within (h : declareAll j ps = .ok j') : j.env.Within j'.env := by
  induction ps generalizing j with
  | nil =>
    cases h
    exact .refl _
  | cons p ps ih =>
    obtain ⟨next, hp, hrest⟩ := declareAll_cons.1 h
    obtain ⟨d, _, hmade, _⟩ := trial_inv hp
    exact (Definition.make_within hmade).trans (ih hrest)

theorem declareAll_frame (h : declareAll j ps = .ok j')
    (hname : ∀ p ∈ ps, p.name? ≠ some name) : j.env.AgreeAt name j'.env := by
  induction ps generalizing j with
  | nil =>
    cases h
    exact .refl _ _
  | cons p ps ih =>
    obtain ⟨next, hp, hrest⟩ := declareAll_cons.1 h
    obtain ⟨d, _, hmade, hsubject⟩ := trial_inv hp
    have hne : d.subject ≠ name := by
      rintro rfl
      exact hname p List.mem_cons_self hsubject
    exact (Definition.make_frame hmade hne).trans
      (ih hrest fun p hp => hname p (List.mem_cons_of_mem _ hp))

def Distinct (ps : List Pending) : Prop := (ps.filterMap name?).Nodup

theorem Distinct.of_append_left (h : Distinct (ps ++ qs)) : Distinct ps := by
  unfold Distinct at h
  rw [List.filterMap_append] at h
  exact (List.nodup_append.1 h).1

theorem Distinct.perm (h : Distinct ps) (hp : ps.Perm qs) : Distinct qs :=
  (hp.filterMap name?).nodup_iff.1 h

theorem Distinct.apart (h : Distinct (ps ++ q :: qs)) (hq : q.name? = some name) :
    ∀ p ∈ ps ++ qs, p.name? ≠ some name := by
  have hperm : (ps ++ q :: qs).Perm (q :: (ps ++ qs)) := List.perm_middle
  have hnodup : Distinct (q :: (ps ++ qs)) := h.perm hperm
  unfold Distinct at hnodup
  rw [List.filterMap_cons_some hq] at hnodup
  intro p hp hname
  exact (List.nodup_cons.1 hnodup).1 (List.mem_filterMap.2 ⟨p, hp, hname⟩)

theorem Distinct.apart_append (h : Distinct (ps ++ qs)) (hq : q ∈ qs)
    (hname : q.name? = some name) : ∀ p ∈ ps, p.name? ≠ some name := by
  obtain ⟨before, after, rfl⟩ := List.append_of_mem hq
  rw [← List.append_assoc] at h
  intro p hp
  exact h.apart hname p (List.mem_append_left _ (List.mem_append_left _ hp))

theorem exists_trial (h : declareAll j ps = .ok j') (hp : p ∈ ps) :
    ∃ before after m m', ps = before ++ p :: after ∧ declareAll j before = .ok m ∧
      p.trial m = .ok m' ∧ declareAll m' after = .ok j' := by
  obtain ⟨before, after, rfl⟩ := List.append_of_mem hp
  obtain ⟨m, hbefore, h⟩ := declareAll_append.1 h
  obtain ⟨m', htrial, hafter⟩ := declareAll_cons.1 h
  exact ⟨before, after, m, m', rfl, hbefore, htrial, hafter⟩

theorem declareAll_agree (hqs : declareAll j qs = .ok j₁) (hps : declareAll j ps = .ok j₂)
    (hsub : qs ⊆ ps) (hdqs : Distinct qs) (hdps : Distinct ps) :
    j₁.env.Within j₂.env ∧
      ∀ q ∈ qs, ∀ name, q.name? = some name → j₁.env.AgreeAt name j₂.env := by
  -- The last one declared is resolved alike by both, since all it refers to was declared before.
  induction qs using List.reverseRecOn generalizing j₁ with
  | nil =>
    cases hqs
    exact ⟨declareAll_within hps, by simp⟩
  | append_singleton qs q ih =>
    obtain ⟨m, hm, hlast⟩ := declareAll_append.1 hqs
    obtain ⟨_, hq, hdone⟩ := declareAll_cons.1 hlast
    cases hdone
    obtain ⟨hwithin, hagree⟩ := ih hm (fun q hq => hsub (List.mem_append_left _ hq))
      hdqs.of_append_left
    obtain ⟨d, hd, hmade, hname⟩ := trial_inv hq
    obtain ⟨before, after, k, k', rfl, hbefore, hk, hafter⟩ :=
      exists_trial hps (hsub (List.mem_append_right _ (List.mem_singleton_self q)))
    obtain ⟨d', hd', hmade', _⟩ := trial_inv hk
    have hwithin' : k.env.Within j₂.env :=
      (Definition.make_within hmade').trans (declareAll_within hafter)
    have hsame : d' = d := by
      have h₁ := (resolve_within hwithin q).ok hd
      have h₂ := (resolve_within hwithin' q).ok hd'
      exact Except.ok.inj (h₂.symm.trans h₁)
    subst hsame
    have hother : ∀ p ∈ before ++ after, p.name? ≠ some d'.subject := hdps.apart hname
    have hbase : m.env.AgreeAt d'.subject k.env := by
      have h₁ : j.env.AgreeAt d'.subject m.env :=
        declareAll_frame hm fun p hp => hdqs.apart hname p (List.mem_append_left _ hp)
      have h₂ : j.env.AgreeAt d'.subject k.env :=
        declareAll_frame hbefore fun p hp => hother p (List.mem_append_left _ hp)
      exact h₁.symm.trans h₂
    have hlocal : j₁.env.AgreeAt d'.subject j₂.env := by
      obtain ⟨_, hmade'', hagree'⟩ := d'.make_local hbase hmade
      cases hmade'.symm.trans hmade''
      exact hagree'.trans
        (declareAll_frame hafter fun p hp => hother p (List.mem_append_right _ hp))
    refine ⟨⟨(Definition.make_moduleName hmade).trans hwithin.moduleName, fun name => ?_⟩, ?_⟩
    · by_cases hn : d'.subject = name
      · subst hn
        exact .inr hlocal.entry
      · rw [← (Definition.make_frame hmade hn).entry]
        exact hwithin.entry name
    · intro p hp name hpname
      by_cases hn : d'.subject = name
      · subst hn
        exact hlocal
      · rcases List.mem_append.1 hp with hp | hp
        · exact (Definition.make_frame hmade hn).symm.trans (hagree p hp name hpname)
        · cases List.mem_singleton.1 hp
          exact absurd (Option.some.inj (hname.symm.trans hpname)) hn

theorem trial_of_agree {d : Definition} {env env' : TypeEnv} (hd : p.resolve j.env = .ok d)
    (hmade : d.make env = .ok env') (hagree : env.AgreeAt d.subject j.env) :
    ∃ j', p.trial j = .ok j' := by
  obtain ⟨env'', hmade', _⟩ := d.make_local hagree hmade
  obtain ⟨j', hj'⟩ := Journal.exists_make hmade'
  exact ⟨j', trial_eq_ok.2 ⟨d, hd, hj'⟩⟩

theorem exists_first {α : Type} {P : α → Prop} {l : List α} (h : ∃ a ∈ l, ¬ P a) :
    ∃ before a after, l = before ++ a :: after ∧ (∀ b ∈ before, P b) ∧ ¬ P a := by
  induction l with
  | nil => simp at h
  | cons a l ih =>
    by_cases ha : P a
    · obtain ⟨b, hb, hnot⟩ := h
      have hmem : b ∈ l := (List.mem_cons.1 hb).resolve_left fun h => hnot (h ▸ ha)
      obtain ⟨before, c, after, rfl, hbefore, hc⟩ := ih ⟨b, hmem, hnot⟩
      exact ⟨a :: before, c, after, rfl, List.forall_mem_cons.2 ⟨ha, hbefore⟩, hc⟩
    · exact ⟨[], a, l, rfl, by simp, ha⟩

section Stuck

variable {stuck : List Pending} {middle : Journal} (hps : declareAll j ps = .ok j')
  (hqs : declareAll j qs = .ok middle) (hperm : ps.Perm (qs ++ stuck)) (hd : Distinct ps)
include hps hqs hperm hd

theorem not_refused_of_declareAll (hp : p ∈ stuck) :
    (∃ m, p.trial middle = .ok m) ∨ Waits (p.trial middle) := by
  obtain ⟨before, after, m, m', rfl, hbefore, htrial, hafter⟩ :=
    exists_trial hps (hperm.mem_iff.2 (List.mem_append_right _ hp))
  obtain ⟨d, hresolved, hmade, hname⟩ := trial_inv htrial
  have hdqs : Distinct (qs ++ stuck) := hd.perm hperm
  have hwithin : middle.env.Within j'.env :=
    (declareAll_agree hqs hps (fun q hq => hperm.mem_iff.2 (List.mem_append_left _ hq))
      hdqs.of_append_left hd).1
  have hfinal : p.resolve j'.env = .ok d :=
    (resolve_within ((Definition.make_within hmade).trans (declareAll_within hafter)) p).ok
      hresolved
  rcases resolve_within hwithin p with hwaits | heq
  · exact .inr (hwaits.bind _)
  · refine .inl (trial_of_agree (heq.trans hfinal) hmade ?_)
    have hbase : j.env.AgreeAt d.subject m.env :=
      declareAll_frame hbefore fun q hq => hd.apart hname q (List.mem_append_left _ hq)
    exact hbase.symm.trans (declareAll_frame hqs (hdqs.apart_append hp hname))

theorem exists_trial_of_declareAll (hne : ∃ p, p ∈ stuck) :
    ∃ p ∈ stuck, ∃ m, p.trial middle = .ok m := by
  have hdqs : Distinct (qs ++ stuck) := hd.perm hperm
  -- The first in the order that works and not declared yet: all it refers to has been declared.
  obtain ⟨before, p, after, rfl, hbefore, hp⟩ : ∃ before p after, ps = before ++ p :: after ∧
      (∀ q ∈ before, q ∈ qs) ∧ p ∉ qs := by
    refine exists_first ?_
    obtain ⟨p, hp⟩ := hne
    have hmem : p ∈ ps := hperm.mem_iff.2 (List.mem_append_right _ hp)
    obtain ⟨_, _, _, _, _, _, htrial, _⟩ := exists_trial hps hmem
    obtain ⟨d, _, _, hname⟩ := trial_inv htrial
    exact ⟨p, hmem, fun hq => hdqs.apart_append hp hname p hq hname⟩
  have hstuck : p ∈ stuck := by
    have hmem : p ∈ qs ++ stuck := hperm.mem_iff.1 (List.mem_append_right _ List.mem_cons_self)
    exact (List.mem_append.1 hmem).resolve_left hp
  obtain ⟨m, hm, hrest⟩ := declareAll_append.1 hps
  obtain ⟨_, htrial, _⟩ := declareAll_cons.1 hrest
  obtain ⟨d, hresolved, hmade, hname⟩ := trial_inv htrial
  have hwithin : m.env.Within middle.env :=
    (declareAll_agree hm hqs hbefore hd.of_append_left hdqs.of_append_left).1
  refine ⟨p, hstuck, trial_of_agree ((resolve_within hwithin p).ok hresolved) hmade ?_⟩
  have hbase : j.env.AgreeAt d.subject m.env :=
    declareAll_frame hm fun q hq => hd.apart hname q (List.mem_append_left _ hq)
  exact hbase.symm.trans (declareAll_frame hqs (hdqs.apart_append hstuck hname))

theorem not_sticks_of_declareAll (e : Error) : ¬ Sticks middle stuck e := by
  rintro ⟨before, p, after, rfl, hbefore, hp, hlast⟩
  have hmem : p ∈ before ++ p :: after := by simp
  rcases not_refused_of_declareAll hps hqs hperm hd hmem with ⟨m, hm⟩ | ⟨e', he', hwaits⟩
  · cases hm.symm.trans hp
  · cases he'.symm.trans hp
    cases hlast hwaits
    obtain ⟨q, hq, m, hm⟩ := exists_trial_of_declareAll hps hqs hperm hd ⟨p, hmem⟩
    have hqwaits : Waits (q.trial middle) := by
      rcases List.mem_append.1 hq with hq | hq
      · exact hbefore q hq
      · cases List.mem_singleton.1 hq
        exact ⟨e, hp, hwaits⟩
    obtain ⟨_, he, _⟩ := hqwaits
    cases hm.symm.trans he

end Stuck

theorem settle_of_declareAll (hps : declareAll j ps = .ok j') (hperm : ps.Perm ws)
    (hd : Distinct ps) : ∃ j'', settle ws j = .ok () j'' ∧ j'.env.Alike j''.env := by
  rcases settle_cases ws j with ⟨j'', hsettled, qs, hqs, hall⟩ |
    ⟨e, _, _, qs, stuck, middle, hqs, hall, hstuck, _⟩
  · refine ⟨j'', hsettled, ?_⟩
    have hsame : ps.Perm qs := hperm.trans hqs.symm
    obtain ⟨hwithin, hagree⟩ := declareAll_agree hps hall hsame.subset hd (hd.perm hsame)
    refine TypeEnv.alike_of_agreeAt hwithin.moduleName fun name => ?_
    by_cases hname : ∃ p ∈ ps, p.name? = some name
    · obtain ⟨p, hp, hpname⟩ := hname
      exact hagree p hp name hpname
    · have h₁ : j.env.AgreeAt name j'.env :=
        declareAll_frame hps fun p hp hpname => hname ⟨p, hp, hpname⟩
      have h₂ : j.env.AgreeAt name j''.env :=
        declareAll_frame hall fun p hp hpname => hname ⟨p, hsame.mem_iff.2 hp, hpname⟩
      exact h₁.symm.trans h₂
  · exact absurd hstuck (not_sticks_of_declareAll hps hall (hperm.trans hqs.symm) hd e)

theorem settle_perm (hperm : ws.Perm ws') (hd : Distinct ws) (h : settle ws j = .ok () j₁) :
    ∃ j₂, settle ws' j = .ok () j₂ ∧ j₁.env.Alike j₂.env := by
  obtain ⟨ps, hps, hall⟩ := exists_of_settle h
  exact settle_of_declareAll hall (hps.trans hperm) (hd.perm hps.symm)

end ParseForest.Declare
