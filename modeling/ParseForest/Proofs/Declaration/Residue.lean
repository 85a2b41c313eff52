import Mathlib.Data.List.Perm.Subperm
import ParseForest.Proofs.Declaration.Resumption

/-!
Declarations evaluated over the residue of an evaluation that failed. The definitions left behind
are the first ones about each name that are made anyway, and making them again changes nothing. Main
statements: `LeftOver.alike`, `evaluate_over_residue`.
-/

namespace ParseForest

open Success

section LeftOver

/-- The second environment holds what the first one holds, and the constructors and keyword
parameters that `made` defines. -/
structure LeftOver (made : List Definition) (env env' : TypeEnv) : Prop where
  types : env.SameTypes env'
  constructors : ∀ key fields, env'.constructors.get? key = some fields ↔
    env.constructors.get? key = some fields ∨
      ∃ owner, .constructor owner key.2 fields ∈ made ∧ owner.declaredName? = some key.1
  keywords : ∀ owner, env'.keywords.get? owner =
    extended (keywordsIn owner made) (env.keywords.get? owner)

variable {env env' x y : TypeEnv} {made defs : List Definition}

theorem subset_of_about (h : ∀ name, about name made <+: about name defs) : made ⊆ defs := by
  intro d hd
  have hmem : d ∈ about d.subject made := List.mem_filter.2 ⟨hd, by simp⟩
  exact (List.mem_filter.1 ((h d.subject).subset hmem)).1

theorem keywordsIn_about (owner : KeywordOwner) (ds : List Definition) :
    keywordsIn owner (about owner.dataName ds) = keywordsIn owner ds := by
  unfold keywordsIn about
  rw [List.filterMap_filter]
  refine List.filterMap_congr fun d _ => ?_
  cases d with
  | keywords owner' ks =>
    by_cases h : owner' = owner
    · subst h
      simp [Definition.subject]
    · simp [Definition.keywordsFor?, h]
  | _ => simp [Definition.keywordsFor?]

namespace LeftOver

theorem of_makeAll {m m' : TypeEnv} (hmade : makeAll m made = .ok m')
    (hc : env.constructors = m.constructors) (hk : env.keywords = m.keywords)
    (hc' : env'.constructors = m'.constructors) (hk' : env'.keywords = m'.keywords)
    (hsame : env.SameTypes env') : LeftOver made env env' where
  types := hsame
  constructors key fields := by
    rw [hc, hc']
    exact makeAll_constructors hmade
  keywords owner := by
    rw [hk, hk', makeAll_keywords hmade, get?_addAllKeywords]

theorem extended_keywordsIn (h : LeftOver made env env')
    (hfirst : ∀ name, about name made <+: about name defs) (owner : KeywordOwner) :
    extended (keywordsIn owner defs) (env'.keywords.get? owner) =
      extended (keywordsIn owner defs) (env.keywords.get? owner) := by
  obtain ⟨more, hmore⟩ : keywordsIn owner made <+: keywordsIn owner defs := by
    rw [← keywordsIn_about owner made, ← keywordsIn_about owner defs]
    exact (hfirst owner.dataName).filterMap _
  rw [← hmore, h.keywords, extended_append, extended_extended, extended_append]

section

variable (h : LeftOver made env env') (hkeeps : ∀ d ∈ defs, d.KeepsTypes env)
include h hkeeps

theorem makeAll_left (hy : makeAll env' defs = .ok y) : ∃ x, makeAll env defs = .ok x := by
  have hsame : env.SameTypes y := sameTypes_of_makeAll hkeeps h.types hy
  have hspells : ∀ key fields fields', y.constructors.get? key = some fields →
      y.constructors.get? key = some fields' → fields = fields' :=
    fun _ _ _ h₁ h₂ => Option.some.inj (h₁.symm.trans h₂)
  refine exists_makeAll hspells (fun key fields hc => ?_) fun d hd => ?_
  · exact (makeAll_constructors hy).2 (.inl ((h.constructors key fields).2 (.inl hc)))
  · refine (makeAll_holds hy hd).mono (fun name => .inr ?_) fun _ _ hfields => hfields
    exact (hsame.entry name).symm

variable (hfirst : ∀ name, about name made <+: about name defs)
include hfirst

theorem makeAll_right (hx : makeAll env defs = .ok x) : ∃ y, makeAll env' defs = .ok y := by
  have hsame : env.SameTypes x := sameTypes_of_makeAll hkeeps (.refl env) hx
  have hspells : ∀ key fields fields', x.constructors.get? key = some fields →
      x.constructors.get? key = some fields' → fields = fields' :=
    fun _ _ _ h₁ h₂ => Option.some.inj (h₁.symm.trans h₂)
  refine exists_makeAll hspells (fun key fields hc => ?_) fun d hd => ?_
  · rcases (h.constructors key fields).1 hc with hc | ⟨owner, hmem, howner⟩
    · exact (makeAll_constructors hx).2 (.inl hc)
    · exact (makeAll_constructors hx).2 (.inr ⟨owner, subset_of_about hfirst hmem, howner⟩)
  · refine (makeAll_holds hx hd).mono (fun name => .inr ?_) fun _ _ hfields => hfields
    exact (hsame.entry name).symm.trans (h.types.entry name)

theorem alike (hx : makeAll env defs = .ok x) (hy : makeAll env' defs = .ok y) :
    x.Alike y := by
  have hsame : x.SameTypes y :=
    (sameTypes_of_makeAll hkeeps (.refl env) hx).symm.trans
      (sameTypes_of_makeAll hkeeps h.types hy)
  refine ⟨hsame.moduleName, hsame.dataTypes, hsame.synonyms, fun key => ?_, fun owner => ?_⟩
  · refine Option.ext fun fields => ?_
    rw [makeAll_constructors hx, makeAll_constructors hy, h.constructors]
    constructor
    · rintro (hc | hdef)
      · exact .inl (.inl hc)
      · exact .inr hdef
    · rintro ((hc | ⟨owner, hmem, howner⟩) | hdef)
      · exact .inl hc
      · exact .inr ⟨owner, subset_of_about hfirst hmem, howner⟩
      · exact .inr hdef
  · rw [makeAll_keywords hx, makeAll_keywords hy, get?_addAllKeywords, get?_addAllKeywords,
      h.extended_keywordsIn hfirst]

end

end LeftOver

end LeftOver

namespace Declaration

open Declare

variable {types : TypeEnv} {ds ds₂ more : List Declaration} {defs : List Definition}
  {plan : Declaration → Except Error (List Definition)}

theorem about_planAll_of_ne (hplan : ∀ d : Declaration, AllAbout d.type.name.name (plan d))
    {name : String} (hne : ∀ d ∈ ds, d.type.name.name ≠ name) (h : planAll plan ds = .ok defs) :
    about name defs = [] := by
  induction ds generalizing defs with
  | nil =>
    cases h
    rfl
  | cons d ds ih =>
    obtain ⟨hd, hds⟩ := List.forall_mem_cons.1 hne
    rw [planAll_cons] at h
    obtain ⟨p, rest, hp, hrest, rfl⟩ := andThen_eq_ok.1 h
    have hnone : about name p = [] := by
      refine List.filter_eq_nil_iff.2 fun x hx => ?_
      simpa [hplan d p hp x hx] using hd
    rw [about_append, hnone, ih hds hrest]
    rfl

theorem exists_prefix_of_append (h : fillingPlan types (ds ++ more) = .ok defs)
    (hne : ∀ d ∈ ds, ∀ d' ∈ more, d.type.name.name ≠ d'.type.name.name) :
    ∃ defs', fillingPlan types ds = .ok defs' ∧ ∀ name, about name defs' <+: about name defs := by
  obtain ⟨_, _, habstract, hdata, rfl⟩ := andThen_eq_ok.1 h
  obtain ⟨as, as', has, has', rfl⟩ := planAll_append.1 habstract
  obtain ⟨bs, bs', hbs, hbs', rfl⟩ := planAll_append.1 hdata
  refine ⟨as ++ bs, andThen_eq_ok.2 ⟨as, bs, has, hbs, rfl⟩, fun name => ?_⟩
  simp only [about_append]
  by_cases hname : ∃ d' ∈ more, d'.type.name.name = name
  · obtain ⟨d', hd', rfl⟩ := hname
    have hds : ∀ d ∈ ds, d.type.name.name ≠ d'.type.name.name := fun d hd => hne d hd d' hd'
    rw [about_planAll_of_ne abstractPlan_about hds has, about_planAll_of_ne dataPlan_about hds hbs]
    exact List.nil_prefix
  · have hmore : ∀ d' ∈ more, d'.type.name.name ≠ name := fun d' hd' h' => hname ⟨d', hd', h'⟩
    have heq : about name as ++ about name as' ++ (about name bs ++ about name bs') =
        about name as ++ about name bs := by
      rw [about_planAll_of_ne abstractPlan_about hmore has',
        about_planAll_of_ne dataPlan_about hmore hbs', List.append_nil, List.append_nil]
    exact heq ▸ List.prefix_rfl

theorem exists_perm_append (hsub : ds ⊆ ds₂) (hd : (ds.filterMap introduced?).Nodup)
    (hall : ∀ d ∈ ds₂, d.introduced? = some d.type.name.name) :
    ∃ more, ds₂.Perm (ds ++ more) := by
  have hnodup : ds.Nodup :=
    (names_ne (fun d hmem => hall d (hsub hmem)) hd).imp fun hne heq =>
      hne (congrArg (fun d : Declaration => d.type.name.name) heq)
  obtain ⟨ds', hperm, hsublist⟩ := List.subperm_of_subset hnodup hsub
  obtain ⟨more, hmore⟩ := hsublist.exists_perm_append
  exact ⟨more, hmore.trans (hperm.append_right more)⟩

theorem exists_prefix_of_perm (hperm : ds₂.Perm (ds ++ more))
    (hnames : ds₂.Pairwise fun d d' => d.type.name.name ≠ d'.type.name.name)
    (h : fillingPlan types ds₂ = .ok defs) :
    ∃ defs', fillingPlan types ds = .ok defs' ∧ ∀ name, about name defs' <+: about name defs := by
  obtain ⟨defs₁, hplan, hreorders⟩ := fillingPlan_perm hperm hnames h
  have happart : (ds ++ more).Pairwise fun d d' => d.type.name.name ≠ d'.type.name.name :=
    hnames.perm hperm fun hne => hne.symm
  obtain ⟨defs', hplan', hfirst⟩ :=
    exists_prefix_of_append hplan (List.pairwise_append.1 happart).2.2
  exact ⟨defs', hplan', fun name => hreorders name ▸ hfirst name⟩

theorem evaluate_both_of_leftOver {made : List Definition} {j k m₁ m₂ : Journal}
    (hm₁ : settle (waiting ds) j = .ok () m₁) (hm₂ : settle (waiting ds) k = .ok () m₂)
    (hover : LeftOver made m₁.env m₂.env)
    (hfirst : ∀ defs, fillingPlan m₁.env ds = .ok defs →
      ∀ name, about name made <+: about name defs)
    (hok : (∃ a, evaluate ds j = .ok () a) ∨ ∃ a, evaluate ds k = .ok () a) :
    ∃ a b, evaluate ds j = .ok () a ∧ evaluate ds k = .ok () b ∧ a.env.Alike b.env := by
  have hiff₁ : ∀ a, evaluate ds j = .ok () a ↔ ∃ defs, fillingPlan m₁.env ds = .ok defs ∧
      m₁.makeAll defs = .ok a := fun a => evaluate_eq_ok_iff hm₁ (.refl m₁.env)
  have hiff₂ : ∀ a, evaluate ds k = .ok () a ↔ ∃ defs, fillingPlan m₁.env ds = .ok defs ∧
      m₂.makeAll defs = .ok a := fun a => evaluate_eq_ok_iff hm₂ hover.types
  obtain ⟨defs, hplan, hmakes⟩ : ∃ defs, fillingPlan m₁.env ds = .ok defs ∧
      ((∃ x, makeAll m₁.env defs = .ok x) ∨ ∃ y, makeAll m₂.env defs = .ok y) := by
    rcases hok with ⟨a, ha⟩ | ⟨a, ha⟩
    · obtain ⟨defs, hplan, hmade⟩ := (hiff₁ a).1 ha
      exact ⟨defs, hplan, .inl ⟨a.env, (Journal.makeAll_eq_ok.1 hmade).1⟩⟩
    · obtain ⟨defs, hplan, hmade⟩ := (hiff₂ a).1 ha
      exact ⟨defs, hplan, .inr ⟨a.env, (Journal.makeAll_eq_ok.1 hmade).1⟩⟩
  have hkeeps : ∀ d ∈ defs, d.KeepsTypes m₁.env := by
    obtain ⟨qs, hqs, hdeclared⟩ := exists_of_settle hm₁
    exact (follows_filling fun d hmem => ready_of_declareAll hqs hdeclared hmem).keeps defs hplan
  obtain ⟨x, hx⟩ : ∃ x, makeAll m₁.env defs = .ok x := by
    rcases hmakes with hx | ⟨y, hy⟩
    · exact hx
    · exact hover.makeAll_left hkeeps hy
  obtain ⟨y, hy⟩ := hover.makeAll_right hkeeps (hfirst defs hplan) hx
  refine ⟨⟨x, m₁.definitions ++ defs.toArray⟩, ⟨y, m₂.definitions ++ defs.toArray⟩, ?_, ?_,
    hover.alike hkeeps (hfirst defs hplan) hx hy⟩
  · exact (hiff₁ _).2 ⟨defs, hplan, Journal.makeAll_eq_ok.2 ⟨hx, rfl⟩⟩
  · exact (hiff₂ _).2 ⟨defs, hplan, Journal.makeAll_eq_ok.2 ⟨hy, rfl⟩⟩

theorem evaluate_both {e : Error} {j j' k : Journal} (hsub : ds ⊆ ds₂)
    (hd : (ds.filterMap introduced?).Nodup) (hd₂ : (ds₂.filterMap introduced?).Nodup)
    (h : evaluate ds j = .error e j') (hk : k.env = j'.env)
    (hok : (∃ a, evaluate ds₂ j = .ok () a) ∨ ∃ a, evaluate ds₂ k = .ok () a) :
    ∃ a b, evaluate ds₂ j = .ok () a ∧ evaluate ds₂ k = .ok () b ∧ a.env.Alike b.env := by
  have hall : ∀ d ∈ ds₂, d.introduced? = some d.type.name.name := by
    rcases hok with ⟨a, ha⟩ | ⟨a, ha⟩
    · exact introduced?_of_evaluate ha
    · exact introduced?_of_evaluate ha
  obtain ⟨more, hmore⟩ := exists_perm_append hsub hd hall
  obtain ⟨ps, stuck, m, hps, hdeclared, hsame, hleft⟩ := exists_residue h
  rw [← hk] at hsame hleft
  have hwaiting : (ps ++ (stuck ++ waiting more)).Perm (waiting ds₂) := by
    have hds : (waiting ds ++ waiting more).Perm (waiting ds₂) := by
      refine ((waiting_perm ds).append (waiting_perm more)).trans ?_
      rw [← List.map_append]
      exact ((waiting_perm ds₂).trans (hmore.map pending)).symm
    rw [← List.append_assoc]
    exact (hps.append_right _).trans hds
  obtain ⟨m₁, m₂, hm₁, hm₂, htypes, hwithin⟩ := by
    refine settle_over_residue hdeclared hsame hwaiting (distinct_waiting hd₂) ?_
    rcases hok with ⟨a, ha⟩ | ⟨a, ha⟩
    · exact .inl (settle_of_evaluate ha)
    · exact .inr (settle_of_evaluate ha)
  -- From here on both make the same definitions, one of them over the first ones of each name.
  obtain ⟨made, hmade, hmadeFirst⟩ := hleft m₁.env hwithin
  have hover : LeftOver made m₁.env m₂.env := by
    obtain ⟨hc, hk'⟩ := declareAll_rest hdeclared
    obtain ⟨hc₁, hk₁⟩ := settle_rest hm₁
    obtain ⟨hc₂, hk₂⟩ := settle_rest hm₂
    exact .of_makeAll (hk ▸ hmade) (hc₁.trans hc.symm) (hk₁.trans hk'.symm) hc₂ hk₂ htypes
  refine evaluate_both_of_leftOver hm₁ hm₂ hover (fun defs hplan name => ?_) hok
  obtain ⟨defs', hplan', habout⟩ := exists_prefix_of_perm hmore (names_ne hall hd₂) hplan
  exact ((hmadeFirst defs' hplan').filter _).trans (habout name)

/-- What a failed evaluation leaves behind decides neither whether its declarations, and more, can
be evaluated later nor what they declare. -/
theorem evaluate_over_residue {e : Error} {j j' k : Journal} (hsub : ds ⊆ ds₂)
    (hd : (ds.filterMap introduced?).Nodup) (hd₂ : (ds₂.filterMap introduced?).Nodup)
    (h : evaluate ds j = .error e j') (hk : k.env = j'.env) :
    Agrees (evaluate ds₂ j) (evaluate ds₂ k) := by
  have hboth := evaluate_both hsub hd hd₂ h hk
  cases hj : evaluate ds₂ j with
  | ok _ a =>
    obtain ⟨_, b, ha, hb, halike⟩ := hboth (.inl ⟨a, hj⟩)
    cases hj.symm.trans ha
    rw [hb]
    exact halike
  | error e₁ a =>
    cases hk' : evaluate ds₂ k with
    | ok _ b =>
      obtain ⟨_, _, ha, _⟩ := hboth (.inr ⟨b, hk'⟩)
      cases hj.symm.trans ha
    | error e₂ b => trivial

def residue : EStateM.Result Error Journal Unit → Journal
  | .ok _ j | .error _ j => j

theorem exists_error {x : EStateM.Result Error Journal Unit} (h : succeeds x = false) :
    ∃ e, x = .error e (residue x) := by
  cases x with
  | ok _ j => cases h
  | error e j => exact ⟨e, rfl⟩

def unfinished : List Declaration :=
  [.data (byName "Tree") [⟨.builtin .int, "size", defaultOne⟩]
      [⟨"leaf", [], [⟨.builtin .int, "key", defaultOne⟩]⟩,
        ⟨"node", [⟨.user (byName "Trees"), none⟩, ⟨.user (byName "Label"), none⟩], []⟩],
    .synonym (byName "Trees") (.structured .list [⟨.user (byName "Tree"), none⟩])]

theorem evaluate_over_unfinished :
    ∃ e j, evaluate unfinished (.ofEnv (.empty none)) = .error e j ∧
      j.env.constructors.keys = [("Tree", "leaf")] ∧
      let finished := .abstractData (byName "Label") [] :: unfinished
      Agrees (evaluate finished (.ofEnv (.empty none))) (evaluate finished (.ofEnv j.env)) := by
  obtain ⟨e, h⟩ : ∃ e, evaluate unfinished (.ofEnv (.empty none)) = .error e
      (residue (evaluate unfinished (.ofEnv (.empty none)))) :=
    exists_error (by decide +kernel)
  exact ⟨e, _, h, by decide +kernel, evaluate_over_residue (List.subset_cons_self _ unfinished)
    (by decide) (by decide) h rfl⟩

end Declaration

end ParseForest
