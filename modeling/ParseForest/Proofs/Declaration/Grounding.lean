import Mathlib.Order.WellFoundedSet
import ParseForest.Proofs.Declaration.Contents
import ParseForest.Proofs.Declaration.Resumption

/-!
Which declarations can be evaluated on their own. A type name can be declared after all those that
its bounds and its base mention, so the names can be declared if and only if what they mention is
declared with them and never leads back. Main statements: `exists_settle_iff`,
`evaluate_ok_iff_grounded`.
-/

namespace ParseForest

open Success

section Cycles

variable {α : Type} {r : α → α → Prop}

theorem not_transGen_self {a : α} (h : Acc (fun b a => r a b) a) : ¬ Relation.TransGen r a a := by
  induction h with
  | intro a _ ih =>
    intro hcycle
    obtain ⟨b, hab, hba⟩ := Relation.TransGen.head'_iff.1 hcycle
    exact ih b hab (Relation.TransGen.tail' hba hab)

theorem exists_last (hacyclic : ∀ a, ¬ Relation.TransGen r a a) {l : List α} (hne : l ≠ []) :
    ∃ a ∈ l, ∀ b ∈ l, ¬ r a b := by
  by_contra! hnext
  have horder : IsStrictOrder α fun b a => Relation.TransGen r a b :=
    { irrefl := hacyclic, trans := fun _ _ _ h h' => h'.trans h }
  have hwf : {a | a ∈ l}.WellFoundedOn fun b a => Relation.TransGen r a b :=
    (List.finite_toSet l).wellFoundedOn
  obtain ⟨a, ha⟩ := List.exists_mem_of_ne_nil l hne
  refine hwf.induction (P := fun _ => False) ha fun a ha ih => ?_
  obtain ⟨b, hb, hab⟩ := hnext a ha
  exact ih b hb (.single hab)

end Cycles

namespace Declare

open Pending

variable {env : TypeEnv} {j m : Journal} {p q : Pending} {ps qs stuck ws : List Pending}
  {name : String} {e : Error}

/-- The declaration of the first name mentions the second one in a bound or in its base. -/
def Mentions (env : TypeEnv) (ps : List Pending) (name name' : String) : Prop :=
  ∃ p ∈ ps, p.name? = some name ∧ ∃ r ∈ p.references, env.localName? r = some name'

def Known (env : TypeEnv) (ps : List Pending) (r : QualifiedName) : Prop :=
  ∃ p ∈ ps, ∃ name, p.name? = some name ∧ env.localName? r = some name

/-- What bounds and bases mention is to be declared as well, and no name leads back to itself. -/
structure Grounded (env : TypeEnv) (ps : List Pending) : Prop where
  known : ∀ p ∈ ps, ∀ r ∈ p.references, Known env ps r
  acyclic : ∀ name, ¬ Relation.TransGen (Mentions env ps) name name

theorem Grounded.perm (h : Grounded env ps) (hperm : ps.Perm qs) : Grounded env qs := by
  have hmentions : Mentions env qs = Mentions env ps := by
    funext name name'
    simp only [Mentions, hperm.mem_iff]
  refine ⟨fun p hp r hr => ?_, hmentions ▸ h.acyclic⟩
  obtain ⟨q, hq, hknown⟩ := h.known p (hperm.mem_iff.2 hp) r hr
  exact ⟨q, hperm.mem_iff.1 hq, hknown⟩

/-- Each introduces a name of its own, with type variables for parameters. -/
structure Plain (ps : List Pending) : Prop where
  named : ∀ p ∈ ps, ∃ name, p.name? = some name
  distinct : Distinct ps
  generic : ∀ p ∈ ps, p.type.Generic

theorem Distinct.eq (h : Distinct ps) (hp : p ∈ ps) (hq : q ∈ ps) (hpname : p.name? = some name)
    (hqname : q.name? = some name) : p = q := by
  obtain ⟨before, after, rfl⟩ := List.append_of_mem hq
  by_contra hne
  have hmem : p ∈ before ++ after := by simpa [hne] using hp
  exact h.apart hqname p hmem hpname

section Untyped

variable (hj : ∀ name, j.env.entry name = (none, none))
include hj

theorem declares_iff_known (h : declareAll j ps = .ok m) {r : QualifiedName} :
    m.env.Declares r ↔ Known j.env ps r := by
  rw [TypeEnv.declares_iff, ← (declareAll_within h).localName? r]
  constructor
  · rintro ⟨name, hlocal, hentry⟩
    by_contra hknown
    refine hentry ((declareAll_frame h fun p hp hname => ?_).entry.symm.trans (hj name))
    exact hknown ⟨p, hp, name, hname, hlocal⟩
  · rintro ⟨p, hp, name, hname, hlocal⟩
    exact ⟨name, hlocal, (declareAll_settled h hp).entry_ne hname⟩

variable (hws : Plain ws)
include hws

theorem acc_of_declareAll (hsub : ps ⊆ ws) (h : declareAll j ps = .ok m) :
    ∀ p ∈ ps, ∀ name, p.name? = some name → Acc (fun b a => Mentions j.env ws a b) name := by
  -- All that the last one mentions was there when it was declared, so the induction covers it.
  induction ps using List.reverseRecOn generalizing m with
  | nil => simp
  | append_singleton ps p ih =>
    obtain ⟨k, hk, hlast⟩ := declareAll_append.1 h
    obtain ⟨_, htrial, _⟩ := declareAll_cons.1 hlast
    obtain ⟨d, hresolved, _, _⟩ := trial_inv htrial
    obtain ⟨hps, hp⟩ := List.append_subset.1 hsub
    have hp : p ∈ ws := hp (List.mem_singleton_self p)
    have hbefore := ih hps hk
    intro q hq name hname
    rcases List.mem_append.1 hq with hq | hq
    · exact hbefore q hq name hname
    · cases List.mem_singleton.1 hq
      refine Acc.intro name ?_
      rintro name' ⟨q, hq, hqname, r, hr, hlocal⟩
      cases hws.distinct.eq hq hp hqname hname
      have hdeclared : k.env.Declares r :=
        (hingesOn_resolve hname (hws.generic p hp) k.env).ok_iff.1 ⟨d, hresolved⟩ r hr
      obtain ⟨p', hp', _, hname', hlocal'⟩ := (declares_iff_known hj hk).1 hdeclared
      cases hlocal.symm.trans hlocal'
      exact hbefore p' hp' name' hname'

theorem grounded_of_declareAll (hperm : ps.Perm ws) (h : declareAll j ps = .ok m) :
    Grounded j.env ws where
  known p hp r hr := by
    obtain ⟨name, hname⟩ := hws.named p hp
    obtain ⟨d, hresolved, _⟩ := declareAll_settled h (hperm.mem_iff.2 hp)
    have hdeclared : m.env.Declares r :=
      (hingesOn_resolve hname (hws.generic p hp) m.env).ok_iff.1 ⟨d, hresolved⟩ r hr
    obtain ⟨q, hq, hknown⟩ := (declares_iff_known hj h).1 hdeclared
    exact ⟨q, hperm.mem_iff.1 hq, hknown⟩
  acyclic name hcycle := by
    obtain ⟨_, ⟨p, hp, hname, _⟩, _⟩ := Relation.TransGen.head'_iff.1 hcycle
    refine not_transGen_self ?_ hcycle
    exact acc_of_declareAll hj hws hperm.subset h p (hperm.mem_iff.2 hp) name hname

variable (hperm : (ps ++ stuck).Perm ws) (h : declareAll j ps = .ok m)
include hperm h

theorem hingesOn_of_stuck (hp : p ∈ stuck) : m.env.HingesOn p.references (p.trial m) := by
  have hmem : p ∈ ws := hperm.mem_iff.1 (List.mem_append_right ps hp)
  obtain ⟨name, hname⟩ := hws.named p hmem
  have hapart := (hws.distinct.perm hperm.symm).apart_append hp hname
  exact hingesOn_trial hname (hws.generic p hmem)
    ((declareAll_frame h hapart).entry.symm.trans (hj name))

theorem all_wait (hstuck : Sticks m stuck e) :
    e.isUndeclaredType = true ∧ stuck ≠ [] ∧ ∀ p ∈ stuck, Waits (p.trial m) := by
  obtain ⟨before, p, after, rfl, hbefore, hfailed, hlast⟩ := hstuck
  have hwaits : Waits (p.trial m) := by
    have hp : p ∈ before ++ p :: after := by simp
    rcases (hingesOn_of_stuck hj hws hperm h hp).ok_or_waits with ⟨k, hk⟩ | hwaits
    · cases hk.symm.trans hfailed
    · exact hwaits
  obtain ⟨_, he, hundeclared⟩ := hwaits
  cases hfailed.symm.trans he
  cases hlast hundeclared
  refine ⟨hundeclared, by simp, List.forall_mem_append.2 ⟨hbefore, ?_⟩⟩
  exact List.forall_mem_singleton.2 ⟨e, hfailed, hundeclared⟩

/-- If all that are left waited, each of them would mention another one, and that leads back. -/
theorem not_sticks_of_grounded (hgrounded : Grounded j.env ws) : ¬ Sticks m stuck e := by
  intro hstuck
  obtain ⟨_, hne, hwaits⟩ := all_wait hj hws hperm h hstuck
  have hmem : ∀ p ∈ stuck, p ∈ ws := fun p hp =>
    hperm.mem_iff.1 (List.mem_append_right ps hp)
  have hnames : stuck.filterMap name? ≠ [] := by
    obtain ⟨p, hp⟩ := List.exists_mem_of_ne_nil stuck hne
    obtain ⟨name, hname⟩ := hws.named p (hmem p hp)
    exact List.ne_nil_of_mem (List.mem_filterMap.2 ⟨p, hp, hname⟩)
  -- One that mentions none of those left mentions declared names only, so it need not wait.
  obtain ⟨name, hfound, hlast⟩ := exists_last hgrounded.acyclic hnames
  obtain ⟨p, hp, hname⟩ := List.mem_filterMap.1 hfound
  have hall : ∀ r ∈ p.references, m.env.Declares r := by
    intro r hr
    obtain ⟨q, hq, name', hqname, hlocal⟩ := hgrounded.known p (hmem p hp) r hr
    rcases List.mem_append.1 (hperm.mem_iff.2 hq) with hq | hq
    · exact (declares_iff_known hj h).2 ⟨q, hq, name', hqname, hlocal⟩
    · refine absurd ⟨p, hmem p hp, hname, r, hr, hlocal⟩ (hlast name' ?_)
      exact List.mem_filterMap.2 ⟨q, hq, hqname⟩
  obtain ⟨k, hk⟩ := (hingesOn_of_stuck hj hws hperm h hp).ok_iff.2 hall
  obtain ⟨_, he, _⟩ := hwaits p hp
  cases hk.symm.trans he

end Untyped

section Settle

variable (hj : ∀ name, j.env.entry name = (none, none)) (hws : Plain ws)
include hj hws

theorem exists_settle_iff :
    (∃ m, settle ws j = .ok () m) ↔ Grounded j.env ws := by
  constructor
  · rintro ⟨m, hsettled⟩
    obtain ⟨ps, hps, hall⟩ := exists_of_settle hsettled
    exact grounded_of_declareAll hj hws hps hall
  · intro hgrounded
    rcases settle_cases ws j with ⟨m, hsettled, _⟩ |
      ⟨e, _, _, ps, stuck, k, hperm, hall, hstuck, _⟩
    · exact ⟨m, hsettled⟩
    · exact absurd hstuck (not_sticks_of_grounded hj hws hperm hall hgrounded)

theorem undeclared_of_settle (h : settle ws j = .error e m) : e.isUndeclaredType = true := by
  rcases settle_cases ws j with ⟨_, hsettled, _⟩ |
    ⟨_, _, hfailed, ps, stuck, k, hperm, hall, hstuck, _⟩
  · cases hsettled.symm.trans h
  · cases hfailed.symm.trans h
    exact (all_wait hj hws hperm hall hstuck).1

end Settle

end Declare

namespace Declaration

open Declare

/-- The declarations introduce different names, none of them qualified, and their formal parameters
are type variables. -/
structure WellFormed (ds : List Declaration) : Prop where
  unqualified : ∀ d ∈ ds, d.introduced? = some d.type.name.name
  distinct : (ds.map (·.type.name.name)).Nodup
  generic : ∀ d ∈ ds, d.type.Generic

/-- Types in fields and keyword parameters are known, and no two constructors of a data type and no
two fields of a constructor have one name. -/
structure Coherent (env : TypeEnv) (ds : List Declaration) : Prop where
  known : ∀ d ∈ ds, ∀ r ∈ d.bodyReferences, Known env (ds.map pending) r
  variants : ∀ d ∈ ds, (d.variants.map (·.name)).Nodup
  labels : ∀ d ∈ ds, ∀ v ∈ d.variants, v.labels.Nodup

variable {ds : List Declaration} {j m : Journal} {types env env' : TypeEnv}
  {defs : List Definition}

theorem type_pending (d : Declaration) : d.pending.type = d.type := by
  cases d <;> rfl

section Untyped

variable (hj : ∀ name, j.env.entry name = (none, none))
  (hsettled : settle (waiting ds) j = .ok () m)
include hj hsettled

theorem declares_iff {r : QualifiedName} :
    m.env.Declares r ↔ Known j.env (ds.map pending) r := by
  obtain ⟨ps, hps, hall⟩ := exists_of_settle hsettled
  rw [declares_iff_known hj hall]
  simp only [Known, (hps.trans (waiting_perm ds)).mem_iff]

theorem exists_fillingPlan_iff_known :
    (∃ defs, fillingPlan m.env ds = .ok defs) ↔ ∀ d ∈ ds, (d.variants.map (·.name)).Nodup ∧
      ∀ r ∈ d.bodyReferences, Known j.env (ds.map pending) r := by
  simp only [← declares_iff hj hsettled]
  refine exists_fillingPlan_iff fun d hd type htype => ?_
  obtain ⟨ps, hps, _⟩ := exists_data_of_settled (settled_of_mem hsettled hd) htype
  exact ⟨ps, hps⟩

end Untyped

theorem labels_of_makeAll (hplan : fillingPlan types ds = .ok defs)
    (hmade : makeAll env defs = .ok env') {d : Declaration} (hd : d ∈ ds) {v : Variant}
    (hv : v ∈ d.variants) : v.labels.Nodup := by
  obtain ⟨owner, fields, _, hfields, hmem⟩ := constructor_mem hplan hd hv
  obtain ⟨_, _, hlabels, _⟩ := makeAll_holds hmade hmem
  rw [← TypeEnv.labels_of_fieldsOf hfields]
  exact unseen_nil.1 (TypeEnv.repeatedLabel?_eq_none.1 hlabels)

namespace WellFormed

variable (hds : WellFormed ds)
include hds

theorem eq_of_name {d d' : Declaration} (hd : d ∈ ds) (hd' : d' ∈ ds)
    (h : d.type.name.name = d'.type.name.name) : d = d' :=
  List.inj_on_of_nodup_map hds.distinct hd hd' h

theorem plain_waiting : Plain (waiting ds) := by
  have hinv : ∀ p ∈ waiting ds, ∃ d ∈ ds, d.pending = p := fun p hp =>
    List.mem_map.1 ((waiting_perm ds).mem_iff.1 hp)
  refine ⟨fun p hp => ?_, Declaration.distinct_waiting ?_, fun p hp => ?_⟩
  · obtain ⟨d, hd, rfl⟩ := hinv p hp
    exact ⟨_, (name?_pending d).trans (hds.unqualified d hd)⟩
  · rw [List.filterMap_eq_map_iff_forall_eq_some.2 hds.unqualified]
    exact hds.distinct
  · obtain ⟨d, hd, rfl⟩ := hinv p hp
    exact type_pending d ▸ hds.generic d hd

theorem spells_unique (hvariants : ∀ d ∈ ds, (d.variants.map (·.name)).Nodup)
    {key : String × String} {fields fields' : List Field} (h : Spells types ds key fields)
    (h' : Spells types ds key fields') : fields = fields' := by
  obtain ⟨d, hd, v, hv, hkey, hfields⟩ := h
  obtain ⟨d', hd', v', hv', hkey', hfields'⟩ := h'
  obtain ⟨hname, hvname⟩ := Prod.mk.inj (hkey.trans hkey'.symm)
  cases hds.eq_of_name hd hd' hname
  cases List.inj_on_of_nodup_map (hvariants d hd) hv hv' hvname
  exact Except.ok.inj (hfields.symm.trans hfields')

theorem exists_makeAll_of_plan (hvariants : ∀ d ∈ ds, (d.variants.map (·.name)).Nodup)
    (hlabels : ∀ d ∈ ds, ∀ v ∈ d.variants, v.labels.Nodup)
    (hsettled : ∀ d ∈ ds, d.pending.Settled env) (hnone : ∀ key, env.constructors.get? key = none)
    (hplan : fillingPlan env ds = .ok defs) : ∃ env', makeAll env defs = .ok env' := by
  have hspells : ∀ key fields fields', Spells env ds key fields → Spells env ds key fields' →
      fields = fields' := fun _ _ _ => hds.spells_unique hvariants
  refine exists_makeAll hspells (fun key fields hc => ?_) fun x hx => ?_
  · cases (hnone key).symm.trans hc
  · have hspelled := spelledBy_of_mem hplan hx
    cases x with
    | data name ps =>
      obtain ⟨d, hd, type, htype, rfl, hps⟩ := hspelled
      obtain ⟨ps', hps', hholds⟩ := exists_data_of_settled (hsettled d hd) htype
      cases hps.symm.trans hps'
      exact hholds
    | synonym name ps aliased => cases hspelled
    | constructor owner name fields =>
      obtain ⟨data, howner, d, hd, v, hv, hkey, hfields⟩ := hspelled
      refine ⟨data, howner, ?_, d, hd, v, hv, hkey, hfields⟩
      rw [TypeEnv.repeatedLabel?_eq_none, unseen_nil, TypeEnv.labels_of_fieldsOf hfields]
      exact hlabels d hd v hv
    | keywords owner ks => trivial

section Untyped

variable (hj : ∀ name, j.env.entry name = (none, none))
include hj

theorem exists_settle_iff_grounded :
    (∃ m, settle (waiting ds) j = .ok () m) ↔ Grounded j.env (ds.map pending) := by
  rw [exists_settle_iff hj hds.plain_waiting]
  constructor
  · intro h
    exact h.perm (waiting_perm ds)
  · intro h
    exact h.perm (waiting_perm ds).symm

theorem evaluate_ok_iff (hnone : ∀ key, j.env.constructors.get? key = none) :
    (∃ j', evaluate ds j = .ok () j') ↔
      Grounded j.env (ds.map pending) ∧ Coherent j.env ds := by
  rw [← hds.exists_settle_iff_grounded hj]
  constructor
  · rintro ⟨j', h⟩
    obtain ⟨m, hsettled⟩ := settle_of_evaluate h
    obtain ⟨defs, hplan, hmade⟩ := (evaluate_eq_ok_iff hsettled (.refl m.env)).1 h
    have hplanned := (exists_fillingPlan_iff_known hj hsettled).1 ⟨defs, hplan⟩
    exact ⟨⟨m, hsettled⟩, fun d hd => (hplanned d hd).2, fun d hd => (hplanned d hd).1,
      fun d hd v hv => labels_of_makeAll hplan (Journal.makeAll_eq_ok.1 hmade).1 hd hv⟩
  · rintro ⟨⟨m, hsettled⟩, hcoherent⟩
    obtain ⟨defs, hplan⟩ := (exists_fillingPlan_iff_known hj hsettled).2 fun d hd =>
      ⟨hcoherent.variants d hd, hcoherent.known d hd⟩
    have hrest : ∀ key, m.env.constructors.get? key = none := by
      rw [(settle_rest hsettled).1]
      exact hnone
    obtain ⟨env', hmade⟩ := hds.exists_makeAll_of_plan hcoherent.variants hcoherent.labels
      (fun d hd => settled_of_mem hsettled hd) hrest hplan
    refine ⟨⟨env', m.definitions ++ defs.toArray⟩, ?_⟩
    exact (evaluate_eq_ok_iff hsettled (.refl m.env)).2
      ⟨defs, hplan, Journal.makeAll_eq_ok.2 ⟨hmade, rfl⟩⟩

theorem undeclared_of_not_grounded (h : ¬ Grounded j.env (ds.map pending)) :
    ∃ name j', evaluate ds j = .error (.undeclaredType name) j' := by
  rw [← hds.exists_settle_iff_grounded hj] at h
  cases hsettled : settle (waiting ds) j with
  | ok _ m => exact absurd ⟨m, hsettled⟩ h
  | error e m =>
    have he := undeclared_of_settle hj hds.plain_waiting hsettled
    rw [run_evaluate, run_bind, hsettled]
    cases e with
    | undeclaredType name => exact ⟨name, m, rfl⟩
    | _ => cases he

end Untyped

end WellFormed

/-- Declarations on their own can be evaluated if and only if what bounds and bases mention is
declared with them and never leads back, and all else is coherent. Where the former fails the error
is a type that is not declared. -/
theorem evaluate_ok_iff_grounded (h : WellFormed ds) (moduleName : Option String) :
    ((∃ j, evaluate ds (.ofEnv (.empty moduleName)) = .ok () j) ↔
      Grounded (.empty moduleName) (ds.map pending) ∧ Coherent (.empty moduleName) ds) ∧
    (¬ Grounded (.empty moduleName) (ds.map pending) →
      ∃ name j, evaluate ds (.ofEnv (.empty moduleName)) = .error (.undeclaredType name) j) := by
  have hempty : ∀ name, (Journal.ofEnv (.empty moduleName)).env.entry name = (none, none) :=
    fun _ => rfl
  exact ⟨h.evaluate_ok_iff hempty fun _ => rfl, h.undeclared_of_not_grounded hempty⟩

def circular : List Declaration :=
  [.abstractData ⟨⟨[], "Tree"⟩, [.typeVar "T" (some (.user (byName "Here")))], none⟩ [],
    .synonym (byName "Here") (.user (byName "There")),
    .synonym (byName "There") (.structured .list [⟨.user ⟨⟨["M"], "Here"⟩, [], none⟩, none⟩])]

theorem not_grounded_circular : ¬ Grounded (.empty (some "M")) (circular.map pending) := by
  intro h
  have hthere : Mentions (.empty (some "M")) (circular.map pending) "Here" "There" :=
    ⟨.synonym (byName "Here") (.user (byName "There")), by simp [circular, pending], rfl,
      ⟨[], "There"⟩, by simp [Pending.references, TypeExpr.references, byName], rfl⟩
  have hhere : Mentions (.empty (some "M")) (circular.map pending) "There" "Here" :=
    ⟨.synonym (byName "There") (.structured .list [⟨.user ⟨⟨["M"], "Here"⟩, [], none⟩, none⟩]),
      by simp [circular, pending], rfl, ⟨["M"], "Here"⟩,
      by simp [Pending.references, TypeExpr.references, TypeArgument.references], rfl⟩
  exact h.acyclic "Here" (.head hthere (.single hhere))

theorem evaluate_referringForward_circular :
    (WellFormed referringForward ∧ Grounded (.empty none) (referringForward.map pending) ∧
      Coherent (.empty none) referringForward) ∧
    WellFormed circular ∧ ∃ name j,
      evaluate circular (.ofEnv (.empty (some "M"))) = .error (.undeclaredType name) j := by
  have hforward : WellFormed referringForward :=
    ⟨by decide, by decide, by simp [referringForward, type, byName, TypeReference.Generic]⟩
  have hcircular : WellFormed circular :=
    ⟨by decide, by decide, by simp [circular, type, byName, TypeReference.Generic]⟩
  have hruns : ∃ j, evaluate referringForward (.ofEnv (.empty none)) = .ok () j :=
    exists_of_succeeds (by decide +kernel)
  exact ⟨⟨hforward, (evaluate_ok_iff_grounded hforward none).1.1 hruns⟩, hcircular,
    (evaluate_ok_iff_grounded hcircular (some "M")).2 not_grounded_circular⟩

end Declaration

end ParseForest
