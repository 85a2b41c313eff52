import ParseForest.Proofs.Declaration.Effect
import ParseForest.Proofs.Declaration.Order

/-!
Declarations evaluated a second time. Every type name is declared at its first trial, as what it
stands for already, and the definitions that follow have all been made before. Main statements:
`declareAll_of_settled`, `evaluate_again`.
-/

namespace ParseForest

open Success

namespace Declare

variable {j j' : Journal} {p : Pending} {ps ws : List Pending} {env env' : TypeEnv}

namespace Pending

def Settled (env : TypeEnv) (p : Pending) : Prop :=
  ∃ d, p.resolve env = .ok d ∧ d.Holds env

theorem fits_of_resolve {d : Definition} (h : p.resolve env = .ok d)
    {entry : String → Option (List Ty) × Option Synonym}
    {spells spells' : String × String → List Field → Prop} (hfits : d.Fits entry spells) :
    d.Fits entry spells' := by
  cases p with
  | data type =>
    obtain ⟨_, formals, _, rfl⟩ := resolve_data_eq_ok.1 h
    exact hfits
  | synonym type base =>
    obtain ⟨_, formals, aliased, _, _, rfl⟩ := resolve_synonym_eq_ok.1 h
    exact hfits

theorem addKeywords_of_resolve {d : Definition} (h : p.resolve env = .ok d) (t : KeywordTable) :
    d.addKeywords t = t := by
  cases p with
  | data type =>
    obtain ⟨_, formals, _, rfl⟩ := resolve_data_eq_ok.1 h
    rfl
  | synonym type base =>
    obtain ⟨_, formals, aliased, _, _, rfl⟩ := resolve_synonym_eq_ok.1 h
    rfl

theorem Settled.within (h : p.Settled env) (hwithin : env.Within env') : p.Settled env' := by
  obtain ⟨d, hd, hholds⟩ := h
  have hfits := hholds.mono hwithin.entry fun _ _ hfields => hfields
  exact ⟨d, (resolve_within hwithin p).ok hd, fits_of_resolve hd hfits⟩

theorem Settled.entry_ne (h : p.Settled env) {name : String} (hname : p.name? = some name) :
    env.entry name ≠ (none, none) := by
  obtain ⟨d, hd, hholds⟩ := h
  cases Option.some.inj ((resolve_subject hd).symm.trans hname)
  cases p with
  | data type =>
    obtain ⟨_, formals, _, rfl⟩ := resolve_data_eq_ok.1 hd
    obtain ⟨qs, hentry, _⟩ := hholds
    simp [Definition.subject, hentry]
  | synonym type base =>
    obtain ⟨_, formals, aliased, _, _, rfl⟩ := resolve_synonym_eq_ok.1 hd
    have hentry : env.entry type.name.name = (none, some ⟨formals, aliased⟩) := hholds
    simp [Definition.subject, hentry]

theorem settled_of_trial (h : p.trial j = .ok j') : p.Settled j'.env := by
  obtain ⟨d, hd, hmade, _⟩ := trial_inv h
  have hwithin := Definition.make_within hmade
  exact ⟨d, (resolve_within hwithin p).ok hd, Definition.holds_of_make hmade⟩

theorem Settled.trial (h : p.Settled j.env) : ∃ j', p.trial j = .ok j' ∧ j'.env = j.env := by
  obtain ⟨d, hd, hholds⟩ := h
  have hmade : d.make j.env = .ok j.env := by
    rw [hholds.make, addKeywords_of_resolve hd]
  exact ⟨j.note d, trial_eq_ok.2 ⟨d, hd, Journal.make_eq_ok.2 ⟨hmade, rfl⟩⟩, rfl⟩

end Pending

theorem declareAll_settled (h : declareAll j ps = .ok j') (hp : p ∈ ps) : p.Settled j'.env := by
  obtain ⟨_, _, _, _, _, _, htrial, hafter⟩ := exists_trial h hp
  exact (Pending.settled_of_trial htrial).within (declareAll_within hafter)

theorem declareAll_of_settled (h : ∀ p ∈ ps, p.Settled j.env) :
    ∃ j', declareAll j ps = .ok j' ∧ j'.env = j.env := by
  induction ps generalizing j with
  | nil => exact ⟨j, rfl, rfl⟩
  | cons p ps ih =>
    obtain ⟨hp, hps⟩ := List.forall_mem_cons.1 h
    obtain ⟨next, htrial, hnext⟩ := hp.trial
    obtain ⟨j', hrest, hj'⟩ := ih (hnext ▸ hps)
    exact ⟨j', declareAll_cons.2 ⟨next, htrial, hrest⟩, hj'.trans hnext⟩

theorem env_of_declareAll (h : ∀ p ∈ ps, p.Settled j.env) (hall : declareAll j ps = .ok j') :
    j'.env = j.env := by
  obtain ⟨_, hall', henv⟩ := declareAll_of_settled h
  cases hall.symm.trans hall'
  exact henv

theorem settled_of_settle (h : settle ws j = .ok () j') (hp : p ∈ ws) : p.Settled j'.env := by
  obtain ⟨ps, hps, hall⟩ := exists_of_settle h
  exact declareAll_settled hall (hps.mem_iff.2 hp)

theorem settle_of_settled (h : ∀ p ∈ ws, p.Settled j.env) :
    ∃ j', settle ws j = .ok () j' ∧ j'.env = j.env := by
  rcases settle_cases ws j with ⟨j', hsettled, ps, hps, hall⟩ |
    ⟨e, _, _, ps, stuck, middle, hperm, hall, hstuck, _⟩
  · exact ⟨j', hsettled, env_of_declareAll (fun p hp => h p (hps.mem_iff.1 hp)) hall⟩
  · have hmem : ∀ p ∈ ps ++ stuck, p.Settled j.env := fun p hp => h p (hperm.mem_iff.1 hp)
    obtain ⟨hps, hleft⟩ := List.forall_mem_append.1 hmem
    obtain ⟨before, p, after, rfl, _, hfailed, _⟩ := hstuck
    obtain ⟨_, htrial, _⟩ : ∃ m, p.trial middle = .ok m ∧ m.env = middle.env := by
      refine Pending.Settled.trial ?_
      rw [env_of_declareAll hps hall]
      exact hleft p (by simp)
    cases hfailed.symm.trans htrial

end Declare

namespace Declaration

open Declare

theorem settled_of_mem {ds : List Declaration} {d : Declaration} {j m : Journal}
    (h : settle (waiting ds) j = .ok () m) (hd : d ∈ ds) : d.pending.Settled m.env :=
  settled_of_settle h ((waiting_perm ds).mem_iff.2 (List.mem_map_of_mem hd))

/-- Declarations that have been evaluated can be evaluated again, and that changes nothing. -/
theorem evaluate_again {ds : List Declaration} {j j₁ j₂ : Journal}
    (h : evaluate ds j = .ok () j₁) (henv : j₂.env = j₁.env) :
    ∃ j₃, evaluate ds j₂ = .ok () j₃ ∧ j₃.env = j₁.env := by
  obtain ⟨m, defs, hsettled, hsame, hplan, hmade⟩ := exists_phases h
  have hnames : ∀ p ∈ waiting ds, p.Settled j₂.env := by
    intro p hp
    rw [henv]
    exact (settled_of_settle hsettled hp).within hsame.within
  obtain ⟨m', hsettled', hm'⟩ := settle_of_settled hnames
  have hagain : makeAll m'.env defs = .ok j₁.env := by
    rw [hm', henv]
    exact makeAll_makeAll hmade
  have hsame' : j₁.env.SameTypes m'.env := by
    rw [hm', henv]
    exact .refl j₁.env
  refine ⟨⟨j₁.env, m'.definitions ++ defs.toArray⟩, ?_, rfl⟩
  exact (evaluate_eq_ok_iff hsettled' hsame').2
    ⟨defs, hplan, Journal.makeAll_eq_ok.2 ⟨hagain, rfl⟩⟩

def defaultOne : Tree := ⟨"Literal", "Integer", none, .zero, .lexical "1"⟩

def defaultText : Tree := ⟨"Literal", "String", none, .zero, .lexical "one"⟩

def repeating : List Declaration :=
  [.synonym (byName "Trees") (.structured .list [⟨.user (byName "Tree"), none⟩]),
    .data (byName "Tree") [⟨.builtin .string, "size", defaultText⟩]
      [⟨"node", [⟨.user (byName "Trees"), some "children"⟩], []⟩],
    .abstractData (byName "Tree")
      [⟨.builtin .int, "size", defaultOne⟩, ⟨.builtin .int, "depth", defaultOne⟩],
    .data (byName "Tree") [] [⟨"leaf", [⟨.builtin .int, none⟩], []⟩,
      ⟨"node", [⟨.user (byName "Trees"), some "children"⟩], []⟩],
    .synonym (byName "Trees") (.structured .list [⟨.user (byName "Tree"), none⟩])]

theorem evaluate_repeating_again :
    ∃ j₁, evaluate repeating (.ofEnv (.empty none)) = .ok () j₁ ∧
      ∃ j₂, evaluate repeating (.ofEnv j₁.env) = .ok () j₂ ∧ j₂.env = j₁.env := by
  obtain ⟨j₁, h⟩ : ∃ j, evaluate repeating (.ofEnv (.empty none)) = .ok () j :=
    exists_of_succeeds (by decide +kernel)
  exact ⟨j₁, h, evaluate_again h rfl⟩

end Declaration

end ParseForest
