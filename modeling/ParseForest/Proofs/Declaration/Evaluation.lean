import ParseForest.Proofs.Declaration.Convergence
import ParseForest.Proofs.Declaration.Filling

/-!
Evaluation in its two phases: all names are declared in some order, and then the definitions are
made that are planned on the types that they stand for by then. Where
evaluation fails nothing is taken back. Main statements: `evaluate_eq_ok_iff`, `exists_phases`,
`exists_residue`.
-/

namespace ParseForest.Declaration

open Success Declare

def introduced? (d : Declaration) : Option String := d.type.introduced?

def pending : Declaration → Pending
  | data type _ _ | abstractData type _ => .data type
  | synonym type base => .synonym type base

theorem name?_pending (d : Declaration) : d.pending.name? = d.introduced? := by
  cases d <;> rfl

def waiting (ds : List Declaration) : List Pending :=
  ds.filterMap pendingData ++ ds.filterMap pendingSynonym

theorem waiting_perm (ds : List Declaration) : (waiting ds).Perm (ds.map pending) := by
  induction ds with
  | nil => exact .refl _
  | cons d ds ih =>
    cases d with
    | synonym type base => exact List.perm_middle.trans (ih.cons _)
    | _ => exact ih.cons _

theorem distinct_waiting {ds : List Declaration} (h : (ds.filterMap introduced?).Nodup) :
    Distinct (waiting ds) := by
  refine Distinct.perm ?_ (waiting_perm ds).symm
  unfold Distinct
  rw [List.filterMap_map]
  simpa only [Function.comp_def, name?_pending] using h

theorem introduced?_of_declareAll {ds : List Declaration} {ps : List Pending} {j m : Journal}
    (hps : ps.Perm (waiting ds)) (h : declareAll j ps = .ok m) {d : Declaration} (hd : d ∈ ds) :
    d.introduced? = some d.type.name.name := by
  have hmem : d.pending ∈ ps :=
    (hps.trans (waiting_perm ds)).mem_iff.2 (List.mem_map_of_mem hd)
  obtain ⟨_, _, _, _, _, _, htrial, _⟩ := exists_trial h hmem
  obtain ⟨_, _, _, hname⟩ := trial_inv htrial
  rw [name?_pending] at hname
  rw [hname, TypeReference.eq_name_of_introduced? hname]

theorem isData_of_trial {type : TypeReference TypeExpr} {j j' : Journal}
    (h : (Pending.data type).trial j = .ok j') : ∃ ps, IsData j'.env type ps := by
  obtain ⟨d, hd, hmade, hname⟩ := trial_inv h
  obtain ⟨name, _, hd⟩ := bind_eq_ok.1 hd
  obtain ⟨formals, _, hd⟩ := bind_eq_ok.1 hd
  cases pure_eq_ok.1 hd
  have hsubject : type.name.name = name := TypeReference.eq_name_of_introduced? hname
  obtain ⟨ps, hps⟩ := Definition.make_data_entry hmade
  exact ⟨ps, by rw [hsubject]; exact hname, by rw [hsubject]; exact hps⟩

theorem Ready.mono {d : Declaration} {types env : TypeEnv} (h : d.Ready types)
    (hwithin : types.Within env) : d.Ready env := by
  intro p hp
  obtain ⟨ps, hps⟩ := h p hp
  exact ⟨ps, hps.mono hwithin⟩

theorem ready_of_declareAll {ds : List Declaration} {ps : List Pending} {j m : Journal}
    (hps : ps.Perm (waiting ds)) (h : declareAll j ps = .ok m) {d : Declaration} (hd : d ∈ ds) :
    d.Ready m.env := by
  intro p hp
  have hmem : p ∈ ps := hps.mem_iff.2 (List.mem_append_left _ (List.mem_filterMap.2 ⟨d, hd, hp⟩))
  obtain ⟨_, _, k, k', _, _, htrial, hafter⟩ := exists_trial h hmem
  cases p with
  | synonym type base => cases d <;> cases hp
  | data type =>
    obtain ⟨qs, hdata⟩ := isData_of_trial htrial
    exact ⟨qs, hdata.mono (declareAll_within hafter)⟩

theorem follows_filling {types : TypeEnv} {ds : List Declaration}
    (h : ∀ d ∈ ds, d.Ready types) :
    Follows types (do ds.forM evaluateAbstract; ds.forM evaluateData) ()
      (fillingPlan types ds) :=
  (leaves_filling h (.refl types)).follows

theorem run_evaluate (ds : List Declaration) (j : Journal) :
    evaluate ds j = (do
      settle (waiting ds)
      do ds.forM evaluateAbstract; ds.forM evaluateData : Declare Unit) j := rfl

theorem evaluate_eq_ok_iff {ds : List Declaration} {types : TypeEnv} {j m j' : Journal}
    (hsettled : settle (waiting ds) j = .ok () m) (hsame : types.SameTypes m.env) :
    evaluate ds j = .ok () j' ↔
      ∃ defs, fillingPlan types ds = .ok defs ∧ m.makeAll defs = .ok j' := by
  obtain ⟨ps, hps, hall⟩ := exists_of_settle hsettled
  have hready : ∀ d ∈ ds, d.Ready types := fun d hd =>
    (ready_of_declareAll hps hall hd).mono hsame.within'
  rw [run_evaluate, run_bind_eq_ok]
  constructor
  · rintro ⟨_, m', hm', hfilled⟩
    cases hsettled.symm.trans hm'
    exact (((follows_filling hready).eq_ok_iff m hsame () j').1 hfilled).2
  · intro h
    exact ⟨(), m, hsettled, ((follows_filling hready).eq_ok_iff m hsame () j').2 ⟨rfl, h⟩⟩

theorem settle_of_evaluate {ds : List Declaration} {j j' : Journal}
    (h : evaluate ds j = .ok () j') : ∃ m, settle (waiting ds) j = .ok () m := by
  rw [run_evaluate] at h
  obtain ⟨_, m, hsettled, _⟩ := run_bind_eq_ok.1 h
  exact ⟨m, hsettled⟩

theorem introduced?_of_evaluate {ds : List Declaration} {j j' : Journal}
    (h : evaluate ds j = .ok () j') : ∀ d ∈ ds, d.introduced? = some d.type.name.name := by
  intro d hd
  obtain ⟨m, hsettled⟩ := settle_of_evaluate h
  obtain ⟨ps, hps, hall⟩ := exists_of_settle hsettled
  exact introduced?_of_declareAll hps hall hd

theorem names_ne {ds : List Declaration}
    (hall : ∀ d ∈ ds, d.introduced? = some d.type.name.name)
    (hd : (ds.filterMap introduced?).Nodup) :
    ds.Pairwise fun d d' => d.type.name.name ≠ d'.type.name.name :=
  (List.pairwise_filterMap.1 hd).imp_of_mem fun {d d'} hmem hmem' hne =>
    hne _ (hall d hmem) _ (hall d' hmem')

/-- The definitions of the second phase may as well be planned on the types there are in the end,
since they leave the types as they are. -/
theorem exists_phases {ds : List Declaration} {j j' : Journal} (h : evaluate ds j = .ok () j') :
    ∃ m defs, settle (waiting ds) j = .ok () m ∧ m.env.SameTypes j'.env ∧
      fillingPlan j'.env ds = .ok defs ∧ makeAll m.env defs = .ok j'.env := by
  obtain ⟨m, hsettled⟩ := settle_of_evaluate h
  obtain ⟨ps, hps, hall⟩ := exists_of_settle hsettled
  have hready : ∀ d ∈ ds, d.Ready m.env := fun d hd => ready_of_declareAll hps hall hd
  have hsame : m.env.SameTypes j'.env := by
    obtain ⟨defs, hplan, hmade⟩ := (evaluate_eq_ok_iff hsettled (.refl m.env)).1 h
    exact makeAll_sameTypes ((follows_filling hready).keeps defs hplan) (.refl m.env) hmade
  obtain ⟨defs, hplan, hmade⟩ := (evaluate_eq_ok_iff hsettled hsame.symm).1 h
  exact ⟨m, defs, hsettled, hsame, hplan, (Journal.makeAll_eq_ok.1 hmade).1⟩

/-- Declarations that fail leave some type names declared, and then the first definitions of every
plan that works where these and more types are declared. -/
theorem exists_residue {ds : List Declaration} {e : Error} {j j' : Journal}
    (h : evaluate ds j = .error e j') :
    ∃ ps stuck m, (ps ++ stuck).Perm (waiting ds) ∧ declareAll j ps = .ok m ∧
      m.env.SameTypes j'.env ∧ ∀ types, m.env.Within types →
        ∃ made, makeAll m.env made = .ok j'.env ∧
          ∀ defs, fillingPlan types ds = .ok defs → made <+: defs := by
  rw [run_evaluate, run_bind] at h
  rcases settle_cases (waiting ds) j with ⟨m, hsettled, ps, hps, hall⟩ |
    ⟨e', j₁, hfailed, ps, stuck, m, hperm, hall, _, henv⟩
  · rw [hsettled] at h
    have hready : ∀ d ∈ ds, d.Ready m.env := fun d hd => ready_of_declareAll hps hall hd
    have hleaves : ∀ types, m.env.Within types →
        Leaves m.env (do ds.forM evaluateAbstract; ds.forM evaluateData) ()
          (fillingPlan m.env ds) (fillingPlan types ds) :=
      fun _ hwithin => leaves_filling hready hwithin
    obtain ⟨_, _, hsame, _⟩ := (hleaves m.env (.refl m.env)).residue m e j' (.refl m.env) h
    refine ⟨ps, [], m, by simpa using hps, hall, hsame, fun types hwithin => ?_⟩
    obtain ⟨made, hmade, _, hfirst⟩ := (hleaves types hwithin).residue m e j' (.refl m.env) h
    exact ⟨made, hmade, hfirst⟩
  · rw [hfailed] at h
    cases h
    refine ⟨ps, stuck, m, hperm, hall, henv ▸ .refl m.env, fun types _ => ⟨[], ?_, ?_⟩⟩
    · rw [henv]
      rfl
    · exact fun defs _ => List.nil_prefix

end ParseForest.Declaration
