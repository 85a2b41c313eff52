import ParseForest.Proofs.Declaration.Contents
import ParseForest.Proofs.Declaration.Resumption

/-!
What an evaluation leaves where nothing was declared before: exactly what its declarations say, read
in the types that there are in the end. Main statements: `puts_fillingPlan`, `evaluate_records`.
-/

namespace ParseForest

open Success

namespace Declare

open Pending

variable {j m : Journal} {p : Pending} {ps : List Pending} {name : String}

theorem trial_new (h : p.trial j = .ok m) (hnone : j.env.entry name = (none, none))
    (hnew : m.env.entry name ≠ (none, none)) :
    (∃ type ps, p = .data type ∧ type.name.name = name ∧ j.env.formalsOf type = .ok ps ∧
      m.env.entry name = (some ps, none)) ∨
    ∃ type base s, p = .synonym type base ∧ type.name.name = name ∧
      m.env.entry name = (none, some s) := by
  obtain ⟨d, hd, hmade, hname⟩ := trial_inv h
  have hsubject : d.subject = name := by
    by_contra hne
    exact hnew ((Definition.make_frame hmade hne).entry.symm.trans hnone)
  subst hsubject
  cases p with
  | data type =>
    obtain ⟨_, ps, hps, rfl⟩ := resolve_data_eq_ok.1 hd
    exact .inl ⟨type, ps, rfl, rfl, hps, Definition.make_data_new hmade hnone⟩
  | synonym type base =>
    obtain ⟨_, ps, aliased, _, _, rfl⟩ := resolve_synonym_eq_ok.1 hd
    exact .inr ⟨type, base, _, rfl, rfl, Definition.holds_of_make hmade⟩

theorem exists_data_of_declareAll (hnone : j.env.entry name = (none, none))
    (h : declareAll j ps = .ok m) {parameters : List Ty}
    (hget : m.env.dataTypes.get? name = some parameters) :
    ∃ type, .data type ∈ ps ∧ type.name.name = name ∧ m.env.formalsOf type = .ok parameters := by
  induction ps generalizing j with
  | nil =>
    cases h
    cases hget.symm.trans (congrArg Prod.fst hnone)
  | cons p ps ih =>
    obtain ⟨next, hp, hrest⟩ := declareAll_cons.1 h
    by_cases hnext : next.env.entry name = (none, none)
    · obtain ⟨type, hmem, htype⟩ := ih hnext hrest
      exact ⟨type, List.mem_cons_of_mem p hmem, htype⟩
    · have hkept : next.env.entry name = m.env.entry name :=
        ((declareAll_within hrest).entry name).resolve_left hnext
      have hsame : (next.env.entry name).1 = some parameters :=
        (congrArg Prod.fst hkept).trans hget
      rcases trial_new hp hnone hnext with ⟨type, qs, rfl, hname, hqs, hentry⟩ |
        ⟨_, _, _, rfl, _, hentry⟩
      · rw [hentry] at hsame
        cases hsame
        refine ⟨type, List.mem_cons_self, hname, ?_⟩
        exact ((declareAll_within h).formalsOf type).ok hqs
      · rw [hentry] at hsame
        cases hsame

theorem exists_synonym_of_declareAll (hnone : j.env.entry name = (none, none))
    (h : declareAll j ps = .ok m) {s : Synonym} (hget : m.env.synonyms.get? name = some s) :
    ∃ type base, .synonym type base ∈ ps ∧ type.name.name = name := by
  obtain ⟨p, hp, hname⟩ : ∃ p ∈ ps, p.name? = some name := by
    by_contra! hother
    have hsame := (declareAll_frame h hother).entry.symm.trans hnone
    cases hget.symm.trans (congrArg Prod.snd hsame)
  obtain ⟨d, hd, hholds⟩ := declareAll_settled h hp
  cases p with
  | data type =>
    obtain ⟨_, formals, _, rfl⟩ := resolve_data_eq_ok.1 hd
    obtain ⟨qs, hentry, _⟩ := hholds
    have hsubject : type.name.name = name := TypeReference.eq_name_of_introduced? hname
    rw [hsubject] at hentry
    cases hget.symm.trans (congrArg Prod.snd hentry)
  | synonym type base => exact ⟨type, base, hp, TypeReference.eq_name_of_introduced? hname⟩

end Declare

namespace TypeEnv

variable {env : TypeEnv} {formals formals' : List KeywordFormal}
  {entries entries' : List (String × Keyword)}

theorem keywordsFor_append (h : env.keywordsFor formals = .ok entries)
    (h' : env.keywordsFor formals' = .ok entries') :
    env.keywordsFor (formals ++ formals') = .ok (entries ++ entries') := by
  unfold keywordsFor at h h' ⊢
  rw [List.mapM_append, h, h']
  rfl

theorem eq_nil_iff_of_keywordsFor (h : env.keywordsFor formals = .ok entries) :
    entries = [] ↔ formals = [] := by
  cases formals with
  | nil =>
    cases h
    simp
  | cons k ks =>
    unfold keywordsFor at h
    rw [List.mapM_cons] at h
    obtain ⟨entry, _, h⟩ := bind_eq_ok.1 h
    obtain ⟨rest, _, h⟩ := bind_eq_ok.1 h
    cases pure_eq_ok.1 h
    simp

/-- The entry has the name and the default of the formal, and the type that the formal has in
`env`. -/
def HoldsFormal (env : TypeEnv) (k : KeywordFormal) (entry : String × Keyword) : Prop :=
  entry.1 = k.name ∧ env.typeOf k.type = .ok entry.2.type ∧ entry.2.default = k.default

theorem keywordsFor_eq_ok :
    env.keywordsFor formals = .ok entries ↔ List.Forall₂ env.HoldsFormal formals entries := by
  have hentry : ∀ k entry,
      (do return (k.name, ⟨← env.typeOf k.type, k.default⟩)) = Except.ok entry ↔
        env.HoldsFormal k entry := by
    rintro k ⟨name, type, default⟩
    simp only [bind_eq_ok, pure_eq_ok, HoldsFormal]
    constructor
    · rintro ⟨t, ht, h⟩
      cases h
      exact ⟨rfl, ht, rfl⟩
    · rintro ⟨rfl, ht, rfl⟩
      exact ⟨type, ht, rfl⟩
  simp only [keywordsFor, mapM_eq_ok, hentry]

/-- The expression is a type variable, whose type in `env` is `t`. -/
def HoldsParameter (env : TypeEnv) (e : TypeExpr) (t : Ty) : Prop :=
  ∃ name bound, e = .typeVar name bound ∧ env.typeOf e = .ok t

theorem formalsOf_eq_ok {type : TypeReference TypeExpr} {ps : List Ty} :
    env.formalsOf type = .ok ps ↔ List.Forall₂ env.HoldsParameter type.parameters ps := by
  unfold formalsOf
  rw [mapM_eq_ok]
  constructor
  · refine List.Forall₂.imp fun e t h => ?_
    cases e with
    | typeVar name bound => exact ⟨name, bound, rfl, h⟩
    | _ => cases h
  · refine List.Forall₂.imp fun e t h => ?_
    obtain ⟨_, _, rfl, ht⟩ := h
    exact ht

end TypeEnv

namespace Declare

variable {α : Type} {types : TypeEnv} {owner owner' : KeywordOwner}
  {formals formals' : List KeywordFormal} {p q : Except Error (List Definition)}

/-- The keyword parameters that a plan puts in for the owner are those spelled by `formals`. -/
def Puts (types : TypeEnv) (owner : KeywordOwner) (formals : List KeywordFormal)
    (plan : Except Error (List Definition)) : Prop :=
  ∀ defs, plan = .ok defs →
    types.keywordsFor formals = .ok (keywordsIn owner defs).flatten ∧ [] ∉ keywordsIn owner defs

namespace Puts

theorem nil : Puts types owner [] (.ok []) := by
  intro defs hdefs
  cases hdefs
  exact ⟨rfl, List.not_mem_nil⟩

theorem andThen (hp : Puts types owner formals p) (hq : Puts types owner formals' q) :
    Puts types owner (formals ++ formals') (andThen p q) := by
  intro defs hdefs
  obtain ⟨ds, ds', h, h', rfl⟩ := andThen_eq_ok.1 hdefs
  obtain ⟨hspelled, hnil⟩ := hp ds h
  obtain ⟨hspelled', hnil'⟩ := hq ds' h'
  have happend : keywordsIn owner (ds ++ ds') = keywordsIn owner ds ++ keywordsIn owner ds' :=
    List.filterMap_append
  rw [happend, List.flatten_append]
  exact ⟨TypeEnv.keywordsFor_append hspelled hspelled', by simp [hnil, hnil']⟩

theorem planAll {plan : α → Except Error (List Definition)} {spelled : α → List KeywordFormal}
    {as : List α} (h : ∀ a ∈ as, Puts types owner (spelled a) (plan a)) :
    Puts types owner (as.flatMap spelled) (planAll plan as) := by
  induction as with
  | nil => exact nil
  | cons a as ih =>
    obtain ⟨ha, has⟩ := List.forall_mem_cons.1 h
    rw [List.flatMap_cons]
    exact ha.andThen (ih has)

theorem headPlan (type : TypeReference TypeExpr) : Puts types owner [] (headPlan types type) := by
  intro defs hdefs
  obtain ⟨ps, _, hdefs⟩ := bind_eq_ok.1 hdefs
  cases pure_eq_ok.1 hdefs
  exact ⟨rfl, List.not_mem_nil⟩

theorem keywordsPlan (formals : List KeywordFormal) :
    Puts types owner (if owner' = owner then formals else [])
      (keywordsPlan types owner' formals) := by
  intro defs hdefs
  cases formals with
  | nil =>
    cases hdefs
    have hnil : Puts types owner [] (.ok []) := nil
    simpa using hnil [] rfl
  | cons k ks =>
    obtain ⟨entries, hentries, hdefs⟩ := bind_eq_ok.1 hdefs
    cases pure_eq_ok.1 hdefs
    by_cases h : owner' = owner
    · have hne : entries ≠ [] := fun hnil =>
        List.cons_ne_nil k ks ((TypeEnv.eq_nil_iff_of_keywordsFor hentries).1 hnil)
      have hblocks : keywordsIn owner [.keywords owner' entries] = [entries] := by
        simp [keywordsIn, Definition.keywordsFor?, h]
      rw [if_pos h, hblocks]
      exact ⟨by simpa using hentries, by simpa using hne.symm⟩
    · have hblocks : keywordsIn owner [.keywords owner' entries] = [] := by
        simp [keywordsIn, Definition.keywordsFor?, h]
      rw [if_neg h, hblocks]
      exact ⟨rfl, List.not_mem_nil⟩

theorem variantPlan (t : Ty) (data : String) (v : Variant) :
    Puts types owner (if .constructor data v.name = owner then v.keywords else [])
      (variantPlan types t data v) := by
  intro defs hdefs
  obtain ⟨fields, made, _, hmade, rfl⟩ := variantPlan_eq_ok.1 hdefs
  exact keywordsPlan v.keywords made hmade

theorem variantsPlan (t : Ty) (data : String) (seen : List String) (vs : List Variant) :
    Puts types owner
      (vs.flatMap fun v => if .constructor data v.name = owner then v.keywords else [])
      (variantsPlan types t data seen vs) := by
  intro defs hdefs
  exact planAll (fun v _ => variantPlan t data v) defs (variantsPlan_eq_ok.1 hdefs).2

end Puts

end Declare

namespace Declaration

open Declare

def abstractKeywords (owner : KeywordOwner) : Declaration → List KeywordFormal
  | abstractData type formals => if .data type.name.name = owner then formals else []
  | _ => []

def dataKeywords (owner : KeywordOwner) : Declaration → List KeywordFormal
  | data type formals vs => (if .data type.name.name = owner then formals else []) ++
      vs.flatMap fun v => if .constructor type.name.name v.name = owner then v.keywords else []
  | _ => []

/-- The keyword formals of an owner in all its declarations, first those of data types without
constructors. -/
def keywordFormals (owner : KeywordOwner) (ds : List Declaration) : List KeywordFormal :=
  ds.flatMap (abstractKeywords owner) ++ ds.flatMap (dataKeywords owner)

variable {types : TypeEnv} {owner : KeywordOwner} {ds : List Declaration}

theorem puts_abstractPlan (d : Declaration) :
    Puts types owner (d.abstractKeywords owner) (d.abstractPlan types) := by
  cases d with
  | abstractData type formals => exact (Puts.headPlan type).andThen (Puts.keywordsPlan formals)
  | _ => exact Puts.nil

theorem puts_dataPlan (d : Declaration) :
    Puts types owner (d.dataKeywords owner) (d.dataPlan types) := by
  cases d with
  | data type formals vs =>
    exact (Puts.headPlan type).andThen
      ((Puts.keywordsPlan formals).andThen (Puts.variantsPlan _ _ [] vs))
  | _ => exact Puts.nil

theorem puts_fillingPlan (ds : List Declaration) :
    Puts types owner (keywordFormals owner ds) (fillingPlan types ds) :=
  (Puts.planAll fun d _ => puts_abstractPlan d).andThen (Puts.planAll fun d _ => puts_dataPlan d)

/-- The environment holds what the declarations say, read in its own types, and nothing else. Of
the keyword parameters with one name the last one counts. -/
structure Records (env : TypeEnv) (ds : List Declaration) : Prop where
  dataTypes : ∀ name, name ∈ env.dataTypes.keys ↔
    ∃ d ∈ ds, ∃ type, d.dataType? = some type ∧ type.name.name = name
  parameters : ∀ name ps, env.dataTypes.get? name = some ps →
    ∃ d ∈ ds, ∃ type, d.dataType? = some type ∧ type.name.name = name ∧
      List.Forall₂ env.HoldsParameter type.parameters ps
  synonyms : ∀ name, name ∈ env.synonyms.keys ↔
    ∃ type base, .synonym type base ∈ ds ∧ type.name.name = name
  aliased : ∀ type base, .synonym type base ∈ ds → ∃ ps t,
    List.Forall₂ env.HoldsParameter type.parameters ps ∧ env.typeOf base = .ok t ∧
    env.synonyms.get? type.name.name = some ⟨ps, t⟩
  constructors : ∀ data name, (data, name) ∈ env.constructors.keys ↔
    ∃ d ∈ ds, ∃ v ∈ d.variants, d.type.name.name = data ∧ v.name = name
  fields : ∀ d ∈ ds, ∀ v ∈ d.variants, ∃ fields,
    env.constructors.get? (d.type.name.name, v.name) = some fields ∧
    fields.map (·.label) = v.labels ∧
    List.Forall₂ (fun arg f => env.typeOf arg.type = .ok f.type) v.arguments fields
  owners : ∀ owner, owner ∈ env.keywords.keys ↔ keywordFormals owner ds ≠ []
  keywords : ∀ owner, ∃ entries,
    List.Forall₂ env.HoldsFormal (keywordFormals owner ds) entries ∧
    ((env.keywordsOf owner).map (·.1)).Nodup ∧ ∀ name keyword,
      (name, keyword) ∈ env.keywordsOf owner ↔ Entries.find? name entries.reverse = some keyword

section Types

variable {env : TypeEnv} {moduleName : Option String} {m : Journal}
  (hsettled : settle (waiting ds) (.ofEnv (.empty moduleName)) = .ok () m)
  (hsame : m.env.SameTypes env)
include hsettled hsame

theorem dataType_inv {name : String} {ps : List Ty} (h : env.dataTypes.get? name = some ps) :
    ∃ d ∈ ds, ∃ type, d.dataType? = some type ∧ type.name.name = name ∧
      List.Forall₂ env.HoldsParameter type.parameters ps := by
  obtain ⟨ws, hws, hall⟩ := exists_of_settle hsettled
  rw [← hsame.dataTypes name] at h
  obtain ⟨type, hmem, hname, hps⟩ := exists_data_of_declareAll rfl hall h
  obtain ⟨d, hd, hpending⟩ := List.mem_map.1 ((hws.trans (waiting_perm ds)).mem_iff.1 hmem)
  exact ⟨d, hd, type, pending_eq_data_iff.1 hpending, hname,
    TypeEnv.formalsOf_eq_ok.1 ((hsame.within.formalsOf type).ok hps)⟩

theorem exists_dataType {d : Declaration} (hd : d ∈ ds) {type : TypeReference TypeExpr}
    (htype : d.dataType? = some type) : ∃ ps, env.dataTypes.get? type.name.name = some ps := by
  have hpending := (settled_of_mem hsettled hd).within hsame.within
  obtain ⟨_, _, ps, hps, _⟩ := exists_data_of_settled hpending htype
  exact ⟨ps, congrArg Prod.fst hps⟩

theorem synonym_inv {name : String} {s : Synonym} (h : env.synonyms.get? name = some s) :
    ∃ type base, .synonym type base ∈ ds ∧ type.name.name = name := by
  obtain ⟨ws, hws, hall⟩ := exists_of_settle hsettled
  rw [← hsame.synonyms name] at h
  obtain ⟨type, base, hmem, hname⟩ := exists_synonym_of_declareAll rfl hall h
  obtain ⟨d, hd, hpending⟩ := List.mem_map.1 ((hws.trans (waiting_perm ds)).mem_iff.1 hmem)
  exact ⟨type, base, pending_eq_synonym_iff.1 hpending ▸ hd, hname⟩

theorem synonym_get? {type : TypeReference TypeExpr} {base : TypeExpr}
    (h : .synonym type base ∈ ds) : ∃ ps t,
      List.Forall₂ env.HoldsParameter type.parameters ps ∧ env.typeOf base = .ok t ∧
      env.synonyms.get? type.name.name = some ⟨ps, t⟩ := by
  obtain ⟨x, hx, hholds⟩ := (settled_of_mem hsettled h).within hsame.within
  obtain ⟨_, ps, t, hps, ht, rfl⟩ := Pending.resolve_synonym_eq_ok.1 hx
  exact ⟨ps, t, TypeEnv.formalsOf_eq_ok.1 hps, ht, congrArg Prod.snd hholds⟩

end Types

section Rest

variable {env env' : TypeEnv} {defs : List Definition}
  (hplan : fillingPlan env' ds = .ok defs) (hmade : makeAll env defs = .ok env')
include hplan hmade

theorem constructor_inv (hnone : ∀ key, env.constructors.get? key = none)
    {data name : String} {fields : List Field}
    (h : env'.constructors.get? (data, name) = some fields) :
    ∃ d ∈ ds, ∃ v ∈ d.variants, d.type.name.name = data ∧ v.name = name := by
  rcases (makeAll_constructors hmade).1 h with hold | ⟨owner, hmem, howner⟩
  · cases (hnone _).symm.trans hold
  · obtain ⟨_, howner', d, hd, v, hv, hkey, _⟩ := spelledBy_of_mem hplan hmem
    cases howner.symm.trans howner'
    obtain ⟨hdata, hname⟩ := Prod.mk.inj hkey
    exact ⟨d, hd, v, hv, hdata, hname⟩

theorem constructor_get? {d : Declaration} (hd : d ∈ ds) {v : Variant} (hv : v ∈ d.variants) :
    ∃ fields, env'.constructors.get? (d.type.name.name, v.name) = some fields ∧
      env'.fieldsOf 0 v.arguments = .ok fields := by
  obtain ⟨owner, fields, howner, hfields, hmem⟩ := constructor_mem hplan hd hv
  exact ⟨fields, (makeAll_constructors hmade).2 (.inr ⟨owner, hmem, howner⟩), hfields⟩

end Rest

section Keywords

variable {env : TypeEnv} {defs : List Definition}

theorem get?_extended (blocks : List (List (String × Keyword))) (name : String) :
    ((extended blocks none).getD .empty).get? name = Entries.find? name blocks.flatten.reverse := by
  unfold extended
  split
  next h =>
    subst h
    rfl
  next h =>
    rw [Option.getD_some, Option.getD_none, Table.get?_insertAll]
    exact Option.or_none

theorem keywordsOf_eq (env : TypeEnv) (owner : KeywordOwner) :
    env.keywordsOf owner = ((env.keywords.get? owner).getD .empty).entries := by
  unfold TypeEnv.keywordsOf
  cases env.keywords.get? owner <;> rfl

theorem mem_keywordsOf_iff (h : env.keywords.get? owner = extended (keywordsIn owner defs) none)
    {name : String} {keyword : Keyword} : (name, keyword) ∈ env.keywordsOf owner ↔
      Entries.find? name (keywordsIn owner defs).flatten.reverse = some keyword := by
  rw [keywordsOf_eq, Entries.mem_iff_find? (Table.nodup _), ← get?_extended, h]
  rfl

theorem mem_keywords_keys_iff (hplan : fillingPlan types ds = .ok defs)
    (h : env.keywords.get? owner = extended (keywordsIn owner defs) none) :
    owner ∈ env.keywords.keys ↔ keywordFormals owner ds ≠ [] := by
  obtain ⟨hspelled, hnil⟩ := puts_fillingPlan ds defs hplan
  rw [Table.mem_keys_iff, h, Ne, ← TypeEnv.eq_nil_iff_of_keywordsFor hspelled,
    List.flatten_eq_nil_iff]
  unfold extended
  split
  next hblocks => simp [hblocks]
  next hblocks =>
    obtain ⟨block, hmem⟩ := List.exists_mem_of_ne_nil _ hblocks
    refine ⟨fun _ hall => ?_, fun _ => ⟨_, rfl⟩⟩
    exact hnil (hall block hmem ▸ hmem)

end Keywords

/-- What evaluation declares where nothing was declared is exactly what the declarations say. -/
theorem evaluate_records {moduleName : Option String} {j : Journal}
    (h : evaluate ds (.ofEnv (.empty moduleName)) = .ok () j) : Records j.env ds := by
  obtain ⟨m, defs, hsettled, hsame, hplan, hmade⟩ := exists_phases h
  obtain ⟨hconstructors, hkeywords⟩ := settle_rest hsettled
  have hnone : ∀ key, m.env.constructors.get? key = none := by
    rw [hconstructors]
    exact fun _ => rfl
  have hget : ∀ owner, j.env.keywords.get? owner = extended (keywordsIn owner defs) none := by
    intro owner
    rw [makeAll_keywords hmade, get?_addAllKeywords, hkeywords]
    rfl
  refine ⟨fun name => ?_, fun name ps => dataType_inv hsettled hsame, fun name => ?_,
    fun type base => synonym_get? hsettled hsame, fun data name => ?_, fun d hd v hv => ?_,
    fun owner => mem_keywords_keys_iff hplan (hget owner), fun owner => ?_⟩
  · rw [Table.mem_keys_iff]
    constructor
    · rintro ⟨ps, hps⟩
      obtain ⟨d, hd, type, htype, hname, _⟩ := dataType_inv hsettled hsame hps
      exact ⟨d, hd, type, htype, hname⟩
    · rintro ⟨d, hd, type, htype, rfl⟩
      exact exists_dataType hsettled hsame hd htype
  · rw [Table.mem_keys_iff]
    constructor
    · rintro ⟨s, hs⟩
      exact synonym_inv hsettled hsame hs
    · rintro ⟨type, base, hd, rfl⟩
      obtain ⟨ps, t, _, _, hs⟩ := synonym_get? hsettled hsame hd
      exact ⟨_, hs⟩
  · rw [Table.mem_keys_iff]
    constructor
    · rintro ⟨fields, hfields⟩
      exact constructor_inv hplan hmade hnone hfields
    · rintro ⟨d, hd, v, hv, rfl, rfl⟩
      obtain ⟨fields, hfields, _⟩ := constructor_get? hplan hmade hd hv
      exact ⟨fields, hfields⟩
  · obtain ⟨fields, hfields, hspelled⟩ := constructor_get? hplan hmade hd hv
    exact ⟨fields, hfields, TypeEnv.labels_of_fieldsOf hspelled,
      (TypeEnv.fieldsOf_eq_ok.1 hspelled).2⟩
  · have hspelled : List.Forall₂ j.env.HoldsFormal (keywordFormals owner ds)
        (keywordsIn owner defs).flatten :=
      TypeEnv.keywordsFor_eq_ok.1 (puts_fillingPlan ds defs hplan).1
    refine ⟨_, hspelled, ?_, fun name keyword => ?_⟩
    · rw [keywordsOf_eq]
      exact Table.nodup _
    · exact mem_keywordsOf_iff (hget owner)

def Leaves (P : TypeEnv → Prop) : EStateM.Result Error Journal Unit → Prop
  | .ok _ j => P j.env
  | .error .. => False

instance {P : TypeEnv → Prop} [DecidablePred P] : DecidablePred (Leaves P)
  | .ok _ j => inferInstanceAs (Decidable (P j.env))
  | .error .. => inferInstanceAs (Decidable False)

theorem exists_of_leaves {P : TypeEnv → Prop} {x : EStateM.Result Error Journal Unit}
    (h : Leaves P x) : ∃ j, x = .ok () j ∧ P j.env := by
  cases x with
  | ok _ j => exact ⟨j, rfl, h⟩
  | error e j => cases h

deriving instance DecidableEq for Keyword

def boxed : Declaration :=
  .data ⟨⟨[], "Box"⟩, [.typeVar "T" (some (.user (byName "Trees")))], none⟩ []
    [⟨"box", [⟨.typeVar "T" none, some "content"⟩], [⟨.builtin .int, "width", defaultOne⟩]⟩]

/-- What `repeating` and `boxed` come to: the synonym is resolved, the field without a label is
named for its place, and of the two keyword parameters `size` the later one is left. -/
def Stored (env : TypeEnv) : Prop :=
  let trees := Ty.synonym "Trees" [] (.structured .list [.data "Tree" []])
  env.dataTypes.get? "Tree" = some [] ∧
  env.dataTypes.get? "Box" = some [.parameter "T" trees] ∧
  env.synonyms.get? "Trees" = some ⟨[], .structured .list [.data "Tree" []]⟩ ∧
  env.constructors.get? ("Tree", "node") = some [⟨"children", trees⟩] ∧
  env.constructors.get? ("Tree", "leaf") = some [⟨"arg0", .builtin .int⟩] ∧
  env.constructors.get? ("Box", "box") = some [⟨"content", .parameter "T" .value⟩] ∧
  env.keywordsOf (.data "Tree") =
    [("size", ⟨.builtin .string, defaultText⟩), ("depth", ⟨.builtin .int, defaultOne⟩)] ∧
  env.keywordsOf (.constructor "Box" "box") = [("width", ⟨.builtin .int, defaultOne⟩)]
  deriving Decidable

theorem records_repeating :
    ∃ j, evaluate (boxed :: repeating) (.ofEnv (.empty none)) = .ok () j ∧
      Records j.env (boxed :: repeating) ∧ Stored j.env := by
  obtain ⟨j, h, hstored⟩ :
      ∃ j, evaluate (boxed :: repeating) (.ofEnv (.empty none)) = .ok () j ∧ Stored j.env :=
    exists_of_leaves (by decide +kernel)
  exact ⟨j, h, evaluate_records h, hstored⟩

end Declaration

end ParseForest
