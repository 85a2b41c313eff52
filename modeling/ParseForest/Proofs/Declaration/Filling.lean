import ParseForest.Proofs.Declaration.Following

/-!
Constructors and keyword parameters. Once all type names are declared, a declaration makes the
definitions that its text spells in these types, all of them about the name it introduces. Main
statements: `leaves_filling`, `abstractPlan_about`, `dataPlan_about`.
-/

namespace ParseForest

open Success TypeEnv

namespace Declare

variable {types : TypeEnv}

def IsData (types : TypeEnv) (type : TypeReference TypeExpr) (ps : List Ty) : Prop :=
  type.introduced? = some type.name.name ∧ types.entry type.name.name = (some ps, none)

def headPlan (types : TypeEnv) (type : TypeReference TypeExpr) :
    Except Error (List Definition) := do
  return [.data type.name.name (← types.formalsOf type)]

def keywordsPlan (types : TypeEnv) (owner : KeywordOwner) (formals : List KeywordFormal) :
    Except Error (List Definition) :=
  if formals.isEmpty then .ok [] else do return [.keywords owner (← types.keywordsFor formals)]

def variantPlan (types : TypeEnv) (type : Ty) (data : String) (v : Variant) :
    Except Error (List Definition) := do
  andThen (.ok [.constructor type v.name (← types.fieldsOf 0 v.arguments)])
    (keywordsPlan types (.constructor data v.name) v.keywords)

def variantsPlan (types : TypeEnv) (type : Ty) (data : String) (seen : List String) :
    List Variant → Except Error (List Definition)
  | [] => .ok []
  | v :: vs =>
    if v.name ∈ seen then .error (.redeclaredType v.name)
    else andThen (variantPlan types type data v)
      (variantsPlan types type data (v.name :: seen) vs)

section Data

variable {types' : TypeEnv} {type : TypeReference TypeExpr} {ps : List Ty}

theorem follows_keywords {owner : KeywordOwner} (ks : List (String × Keyword))
    (h : types.entry owner.dataName ≠ (none, none)) :
    Follows types (keywords owner ks) () (.ok [.keywords owner ks]) where
  eq_ok_iff j _ b j' := by
    constructor
    · intro hrun
      cases hrun
      exact ⟨rfl, _, rfl, rfl⟩
    · rintro ⟨_, ds, hds, hmade⟩
      cases hds
      cases hmade
      rfl
  keeps ds hds := by
    cases hds
    exact List.forall_mem_singleton.2 (Definition.keepsTypes_of_subject h)

theorem run_constructor (owner : Ty) (name : String) (fields : List Field) (j : Journal) :
    constructor owner name fields j = match j.make (.constructor owner name fields) with
      | .ok j' => .ok () j'
      | .error e => .error e (j.note (.constructor owner name fields)) := by
  have hrun : constructor owner name fields j =
      (liftM (j.env.declareConstructor owner name fields) >>= setEnv : Declare Unit)
        (j.note (.constructor owner name fields)) := rfl
  rw [hrun, run_bind, run_lift, Journal.make, Definition.make]
  cases j.env.declareConstructor owner name fields <;> rfl

theorem follows_constructor {data name : String} (fields : List Field)
    (h : types.entry data ≠ (none, none)) :
    Follows types (constructor (.data data ps) name fields) ()
      (.ok [.constructor (.data data ps) name fields]) where
  eq_ok_iff j _ b j' := by
    rw [run_constructor]
    constructor
    · intro hrun
      cases hmade : j.make (.constructor (.data data ps) name fields) with
      | ok m =>
        rw [hmade] at hrun
        cases hrun
        exact ⟨rfl, _, rfl, Journal.makeAll_cons.2 ⟨j', hmade, rfl⟩⟩
      | error e =>
        rw [hmade] at hrun
        cases hrun
    · rintro ⟨_, ds, hds, hmade⟩
      cases hds
      obtain ⟨m, hmade, hdone⟩ := Journal.makeAll_cons.1 hmade
      cases hdone
      rw [hmade]
  keeps ds hds := by
    cases hds
    exact List.forall_mem_singleton.2 (Definition.keepsTypes_of_subject h)

theorem IsData.entry_ne (h : IsData types type ps) :
    types.entry type.name.name ≠ (none, none) := by
  rw [h.2]
  simp

theorem follows_data {name : String} (formals : List Ty)
    (h : types.entry name = (some ps, none)) :
    Follows types (data name formals) (.data name ps) (.ok [.data name formals]) where
  eq_ok_iff j hsame t j' := by
    have hmake : ∀ env u, j.env.declareData name formals = .ok (env, u) → .data name ps = u := by
      intro env u hdeclared
      obtain ⟨_, ⟨qs, hqs, _, _, hu⟩ | ⟨hnone, _⟩⟩ := declareData_eq_ok.1 hdeclared
      · cases hqs.symm.trans (congrArg Prod.fst ((hsame.entry name).symm.trans h))
        exact hu
      · cases hnone.symm.trans (congrArg Prod.fst ((hsame.entry name).symm.trans h))
    rw [run_data]
    constructor
    · intro hrun
      cases hdeclared : j.env.declareData name formals with
      | ok r =>
        obtain ⟨env, u⟩ := r
        rw [hdeclared] at hrun
        cases hrun
        refine ⟨hmake env t hdeclared, _, rfl, Journal.makeAll_cons.2 ⟨_, ?_, rfl⟩⟩
        exact Journal.make_eq_ok.2 ⟨map_eq_ok.2 ⟨_, hdeclared, rfl⟩, rfl⟩
      | error e =>
        rw [hdeclared] at hrun
        cases hrun
    · rintro ⟨rfl, ds, hds, hmade⟩
      cases hds
      obtain ⟨m, hmade, hdone⟩ := Journal.makeAll_cons.1 hmade
      cases hdone
      obtain ⟨henv, hnoted⟩ := Journal.make_eq_ok.1 hmade
      obtain ⟨⟨env, u⟩, hdeclared, henv⟩ := map_eq_ok.1 henv
      cases hmake env u hdeclared
      rw [hdeclared]
      cases j'
      cases henv
      cases hnoted
      rfl
  keeps ds hds := by
    cases hds
    refine List.forall_mem_singleton.2 (Definition.keepsTypes_of_subject ?_)
    show types.entry name ≠ (none, none)
    rw [h]
    simp

theorem IsData.mono {env : TypeEnv} (h : IsData types type ps) (hwithin : types.Within env) :
    IsData env type ps :=
  ⟨h.1, ((hwithin.entry _).resolve_left h.entry_ne).symm.trans h.2⟩

theorem leaves_keywords {owner : KeywordOwner} (ks : List (String × Keyword))
    (h : types.entry owner.dataName ≠ (none, none)) :
    Leaves types (keywords owner ks) () (.ok [.keywords owner ks]) (.ok [.keywords owner ks]) :=
  leaves_of_unchanged (follows_keywords ks h) fun j e j' hrun => by cases hrun

theorem leaves_dataType (h : IsData types type ps) (hwithin : types.Within types') :
    Leaves types (dataType type) (.data type.name.name ps) (headPlan types type)
      (headPlan types' type) := by
  have hname : declaredName type = .ok type.name.name := declaredName_eq_ok.2 h.1
  have hrun : dataType type =
      (env >>= fun env => liftM (env.formalsOf type) >>= data type.name.name) := by
    unfold dataType
    rw [hname]
    rfl
  rw [hrun]
  refine leaves_read hwithin (fun _ _ hwithin => hwithin.formalsOf type) fun formals _ => ?_
  refine leaves_of_unchanged (follows_data formals h.2) fun j e j' hfail => ?_
  rw [run_data] at hfail
  cases hdeclared : j.env.declareData type.name.name formals with
  | ok r =>
    rw [hdeclared] at hfail
    cases hfail
  | error e' =>
    rw [hdeclared] at hfail
    cases hfail
    rfl

theorem leaves_constructor (h : IsData types type ps) (name : String) (fields : List Field) :
    Leaves types (constructor (.data type.name.name ps) name fields) ()
      (.ok [.constructor (.data type.name.name ps) name fields])
      (.ok [.constructor (.data type.name.name ps) name fields]) := by
  refine leaves_of_unchanged (follows_constructor fields h.entry_ne) fun j e j' hfail => ?_
  rw [run_constructor] at hfail
  cases hmade : j.make (.constructor (.data type.name.name ps) name fields) with
  | ok m =>
    rw [hmade] at hfail
    cases hfail
  | error e' =>
    rw [hmade] at hfail
    cases hfail
    rfl

theorem leaves_commonKeywords (h : IsData types type ps) (hwithin : types.Within types')
    (formals : List KeywordFormal) :
    Leaves types (commonKeywords (.data type.name.name ps) formals) ()
      (keywordsPlan types (.data type.name.name) formals)
      (keywordsPlan types' (.data type.name.name) formals) := by
  cases formals with
  | nil => exact leaves_pure ()
  | cons k ks =>
    refine leaves_read hwithin (fun _ _ hwithin => hwithin.keywordsFor (k :: ks)) fun c _ => ?_
    exact leaves_keywords c h.entry_ne

def declareVariant (type : Ty) (data : String) (v : Variant) : Declare Unit := do
  constructor type v.name (← (← env).fieldsOf 0 v.arguments)
  if !v.keywords.isEmpty then
    keywords (.constructor data v.name) (← (← env).keywordsFor v.keywords)

theorem variants_cons {t : Ty} {data : String} {seen : List String} {v : Variant}
    {vs : List Variant} (h : v.name ∉ seen) :
    variants t data seen (v :: vs) = (do
      declareVariant t data v
      variants t data (v.name :: seen) vs) := by
  simp only [variants, declareVariant, if_neg h, bind_assoc]
  split <;> simp only [bind_assoc, pure_bind]

theorem leaves_declareVariant (h : IsData types type ps) (hwithin : types.Within types')
    (v : Variant) :
    Leaves types (declareVariant (.data type.name.name ps) type.name.name v) ()
      (variantPlan types (.data type.name.name ps) type.name.name v)
      (variantPlan types' (.data type.name.name ps) type.name.name v) := by
  refine leaves_read hwithin (fun _ _ hwithin => hwithin.fieldsOf 0 v.arguments) fun fields _ => ?_
  refine (leaves_constructor h v.name fields).bind ?_
  unfold keywordsPlan
  cases v.keywords with
  | nil => exact leaves_pure ()
  | cons k ks =>
    refine leaves_read hwithin (fun _ _ hwithin => hwithin.keywordsFor (k :: ks)) fun c _ => ?_
    exact leaves_keywords c h.entry_ne

theorem leaves_variants (h : IsData types type ps) (hwithin : types.Within types')
    (seen : List String) (vs : List Variant) :
    Leaves types (variants (.data type.name.name ps) type.name.name seen vs) ()
      (variantsPlan types (.data type.name.name ps) type.name.name seen vs)
      (variantsPlan types' (.data type.name.name ps) type.name.name seen vs) := by
  induction vs generalizing seen with
  | nil => exact leaves_pure ()
  | cons v vs ih =>
    by_cases hseen : v.name ∈ seen
    · simp only [variants, variantsPlan, if_pos hseen]
      exact leaves_throw _ _
    · rw [variants_cons hseen, variantsPlan, variantsPlan, if_neg hseen, if_neg hseen]
      exact (leaves_declareVariant h hwithin v).bind (ih (v.name :: seen))

end Data

namespace AllAbout

theorem headPlan (type : TypeReference TypeExpr) :
    AllAbout type.name.name (headPlan types type) :=
  bind fun _ => singleton rfl

theorem keywordsPlan (owner : KeywordOwner) (formals : List KeywordFormal) :
    AllAbout owner.dataName (keywordsPlan types owner formals) := by
  unfold Declare.keywordsPlan
  split
  · exact nil
  · exact bind fun _ => singleton rfl

theorem variantsPlan (ps : List Ty) (seen : List String) (vs : List Variant) :
    AllAbout name (variantsPlan types (.data name ps) name seen vs) := by
  induction vs generalizing seen with
  | nil => exact nil
  | cons v vs ih =>
    unfold Declare.variantsPlan
    split
    · exact error _
    · refine andThen (bind fun fields => andThen (singleton rfl) ?_) (ih _)
      exact keywordsPlan (.constructor name v.name) v.keywords

end AllAbout

end Declare

namespace Declaration

open Declare

def type : Declaration → TypeReference TypeExpr
  | data type _ _ | abstractData type _ | synonym type _ => type

def Ready (types : TypeEnv) (d : Declaration) : Prop :=
  ∀ p, d.pendingData = some p → ∃ ps, IsData types p.type ps

def abstractPlan (types : TypeEnv) : Declaration → Except Error (List Definition)
  | abstractData type formals =>
    andThen (headPlan types type) (keywordsPlan types (.data type.name.name) formals)
  | _ => .ok []

def dataPlan (types : TypeEnv) : Declaration → Except Error (List Definition)
  | data type formals vs =>
    let ps := (types.dataTypes.get? type.name.name).getD []
    andThen (headPlan types type) <|
      andThen (keywordsPlan types (.data type.name.name) formals)
        (variantsPlan types (.data type.name.name ps) type.name.name [] vs)
  | _ => .ok []

def fillingPlan (types : TypeEnv) (ds : List Declaration) : Except Error (List Definition) :=
  andThen (planAll (abstractPlan types) ds) (planAll (dataPlan types) ds)

variable {types types' : TypeEnv} {d : Declaration} {ds : List Declaration}

theorem leaves_evaluateAbstract (h : d.Ready types) (hwithin : types.Within types') :
    Leaves types d.evaluateAbstract () (d.abstractPlan types) (d.abstractPlan types') := by
  cases d with
  | abstractData type formals =>
    obtain ⟨ps, hdata⟩ := h _ rfl
    exact (leaves_dataType hdata hwithin).bind (leaves_commonKeywords hdata hwithin formals)
  | _ => exact leaves_pure ()

theorem leaves_evaluateData (h : d.Ready types) (hwithin : types.Within types') :
    Leaves types d.evaluateData () (d.dataPlan types) (d.dataPlan types') := by
  cases d with
  | data type formals vs =>
    obtain ⟨ps, hdata⟩ := h _ rfl
    have hname : declaredName type = .ok type.name.name := declaredName_eq_ok.2 hdata.1
    have hps : types.dataTypes.get? type.name.name = some ps := congrArg Prod.fst hdata.2
    have hps' : types'.dataTypes.get? type.name.name = some ps :=
      congrArg Prod.fst (hdata.mono hwithin).2
    simp only [evaluateData, dataPlan, hname, hps, hps', Option.getD_some]
    refine (leaves_dataType hdata hwithin).bind ?_
    exact (leaves_commonKeywords hdata hwithin formals).bind (leaves_variants hdata hwithin [] vs)
  | _ => exact leaves_pure ()

theorem leaves_filling (h : ∀ d ∈ ds, d.Ready types) (hwithin : types.Within types') :
    Leaves types (do ds.forM evaluateAbstract; ds.forM evaluateData) ()
      (fillingPlan types ds) (fillingPlan types' ds) :=
  (leaves_forM fun d hd => leaves_evaluateAbstract (h d hd) hwithin).bind
    (leaves_forM fun d hd => leaves_evaluateData (h d hd) hwithin)

theorem abstractPlan_about (d : Declaration) :
    AllAbout d.type.name.name (d.abstractPlan types) := by
  cases d with
  | abstractData type formals =>
    exact (AllAbout.headPlan type).andThen (AllAbout.keywordsPlan _ formals)
  | _ => exact .nil

theorem dataPlan_about (d : Declaration) : AllAbout d.type.name.name (d.dataPlan types) := by
  cases d with
  | data type formals vs =>
    exact (AllAbout.headPlan type).andThen
      ((AllAbout.keywordsPlan _ formals).andThen (AllAbout.variantsPlan _ [] vs))
  | _ => exact .nil

end Declaration

end ParseForest
