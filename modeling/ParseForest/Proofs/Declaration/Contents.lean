import ParseForest.Proofs.Declaration.References
import ParseForest.Proofs.Declaration.Repetition

/-!
What the plan of a list of declarations consists of, and when there is one. Main statements:
`exists_fillingPlan_iff`, `spelledBy_of_mem`, `constructor_mem`.
-/

namespace ParseForest

open Success

/-- The labels of the fields: the one that is written, or the place of the field. -/
def Variant.labels (v : Variant) : List String :=
  v.arguments.mapIdx fun i arg => arg.label.getD s!"arg{i}"

def Unseen (seen names : List String) : Prop := names.Nodup ∧ ∀ name ∈ names, name ∉ seen

theorem unseen_nil {names : List String} : Unseen [] names ↔ names.Nodup := by
  simp [Unseen]

theorem unseen_cons {seen names : List String} {name : String} :
    Unseen seen (name :: names) ↔ name ∉ seen ∧ Unseen (name :: seen) names := by
  unfold Unseen
  rw [List.nodup_cons, List.forall_mem_cons]
  constructor
  · rintro ⟨⟨hnew, hnodup⟩, hname, hnames⟩
    refine ⟨hname, hnodup, fun n hn hseen => ?_⟩
    rcases List.mem_cons.1 hseen with rfl | hseen
    · exact hnew hn
    · exact hnames n hn hseen
  · rintro ⟨hname, hnodup, hnames⟩
    refine ⟨⟨fun hn => hnames name hn List.mem_cons_self, hnodup⟩, hname, fun n hn hseen => ?_⟩
    exact hnames n hn (List.mem_cons_of_mem name hseen)

namespace TypeEnv

variable {env : TypeEnv}

theorem fieldsOf_eq_ok {index : Nat} {args : List (TypeArgument TypeExpr)} {fields : List Field} :
    env.fieldsOf index args = .ok fields ↔
      fields.map (·.label) = (args.mapIdx fun i arg => arg.label.getD s!"arg{index + i}") ∧
      List.Forall₂ (fun arg f => env.typeOf arg.type = .ok f.type) args fields := by
  induction args generalizing index fields with
  | nil =>
    constructor
    · intro h
      cases h
      exact ⟨rfl, .nil⟩
    · rintro ⟨_, htypes⟩
      cases htypes
      rfl
  | cons arg args ih =>
    simp only [fieldsOf, bind_eq_ok, pure_eq_ok, ih, List.mapIdx_cons, Nat.add_assoc,
      Nat.add_comm 1, Nat.add_zero]
    constructor
    · rintro ⟨t, ht, fs, ⟨hlabels, htypes⟩, rfl⟩
      exact ⟨by rw [List.map_cons, hlabels], .cons ht htypes⟩
    · rintro ⟨hlabels, htypes⟩
      cases htypes with
      | cons ht htypes =>
        rename_i f fs
        obtain ⟨hlabel, hlabels⟩ := List.cons.inj hlabels
        exact ⟨f.type, ht, fs, ⟨hlabels, htypes⟩, by rw [← hlabel]⟩

theorem labels_of_fieldsOf {v : Variant} {fields : List Field}
    (h : env.fieldsOf 0 v.arguments = .ok fields) : fields.map (·.label) = v.labels := by
  have hlabels := (fieldsOf_eq_ok.1 h).1
  simp only [Nat.zero_add] at hlabels
  exact hlabels

theorem repeatedLabel?_eq_none {seen : List String} {fields : List Field} :
    repeatedLabel? seen fields = none ↔ Unseen seen (fields.map (·.label)) := by
  induction fields generalizing seen with
  | nil => simp [repeatedLabel?, Unseen]
  | cons f fields ih =>
    unfold repeatedLabel?
    rw [List.map_cons, unseen_cons, ← ih]
    by_cases h : f.label ∈ seen
    · simp [h]
    · simp [h]

end TypeEnv

namespace Declare

variable {α : Type} {types : TypeEnv} {p q : Except Error (List Definition)}
  {plan : α → Except Error (List Definition)} {as : List α} {defs : List Definition}

theorem exists_andThen_iff :
    (∃ defs, andThen p q = .ok defs) ↔ (∃ defs, p = .ok defs) ∧ ∃ defs, q = .ok defs := by
  simp only [andThen_eq_ok]
  constructor
  · rintro ⟨_, ds₁, ds₂, h₁, h₂, _⟩
    exact ⟨⟨ds₁, h₁⟩, ds₂, h₂⟩
  · rintro ⟨⟨ds₁, h₁⟩, ds₂, h₂⟩
    exact ⟨ds₁ ++ ds₂, ds₁, ds₂, h₁, h₂, rfl⟩

theorem exists_planAll_iff :
    (∃ defs, planAll plan as = .ok defs) ↔ ∀ a ∈ as, ∃ defs, plan a = .ok defs := by
  induction as with
  | nil => simp [planAll]
  | cons a as ih => rw [planAll_cons, exists_andThen_iff, ih, List.forall_mem_cons]

theorem mem_planAll (h : planAll plan as = .ok defs) {x : Definition} :
    x ∈ defs ↔ ∃ a ∈ as, ∃ made, plan a = .ok made ∧ x ∈ made := by
  induction as generalizing defs with
  | nil =>
    cases h
    simp
  | cons a as ih =>
    rw [planAll_cons] at h
    obtain ⟨made, rest, hmade, hrest, rfl⟩ := andThen_eq_ok.1 h
    simp only [List.mem_append, ih hrest, List.mem_cons, exists_eq_or_imp, hmade]
    simp

theorem exists_keywordsPlan_iff {owner : KeywordOwner} {formals : List KeywordFormal} :
    (∃ defs, keywordsPlan types owner formals = .ok defs) ↔
      ∀ r ∈ KeywordFormal.references formals, types.Declares r := by
  rw [← (TypeEnv.hingesOn_keywordsFor formals).ok_iff]
  cases formals with
  | nil =>
    constructor
    · intro _
      exact ⟨[], rfl⟩
    · intro _
      exact ⟨[], rfl⟩
  | cons k ks =>
    exact exists_map_eq_ok

theorem variantPlan_eq_ok {t : Ty} {data : String} {v : Variant} :
    variantPlan types t data v = .ok defs ↔ ∃ fields made,
      types.fieldsOf 0 v.arguments = .ok fields ∧
      keywordsPlan types (.constructor data v.name) v.keywords = .ok made ∧
      .constructor t v.name fields :: made = defs := by
  simp only [variantPlan, bind_eq_ok, andThen_eq_ok]
  constructor
  · rintro ⟨fields, hfields, _, made, hhead, hmade, rfl⟩
    cases hhead
    exact ⟨fields, made, hfields, hmade, rfl⟩
  · rintro ⟨fields, made, hfields, hmade, rfl⟩
    exact ⟨fields, hfields, _, made, rfl, hmade, rfl⟩

theorem exists_variantPlan_iff {t : Ty} {data : String} {v : Variant} :
    (∃ defs, variantPlan types t data v = .ok defs) ↔ ∀ r ∈ v.references, types.Declares r := by
  have hkeywords :
      (∃ made, keywordsPlan types (.constructor data v.name) v.keywords = .ok made) ↔
        ∀ r ∈ KeywordFormal.references v.keywords, types.Declares r := exists_keywordsPlan_iff
  unfold Variant.references
  rw [List.forall_mem_append, ← hkeywords, ← (TypeEnv.hingesOn_fieldsOf 0 v.arguments).ok_iff]
  simp only [variantPlan_eq_ok]
  constructor
  · rintro ⟨_, fields, made, hfields, hmade, _⟩
    exact ⟨⟨fields, hfields⟩, made, hmade⟩
  · rintro ⟨⟨fields, hfields⟩, made, hmade⟩
    exact ⟨_, fields, made, hfields, hmade, rfl⟩

theorem variantsPlan_eq_ok {t : Ty} {data : String} {seen : List String} {vs : List Variant} :
    variantsPlan types t data seen vs = .ok defs ↔
      Unseen seen (vs.map (·.name)) ∧ planAll (variantPlan types t data) vs = .ok defs := by
  induction vs generalizing seen defs with
  | nil => simp [variantsPlan, planAll, Unseen]
  | cons v vs ih =>
    unfold variantsPlan
    rw [List.map_cons, unseen_cons, planAll_cons]
    by_cases hseen : v.name ∈ seen
    · simp [hseen]
    · simp only [if_neg hseen, andThen_eq_ok, ih]
      constructor
      · rintro ⟨made, rest, hmade, ⟨hunseen, hrest⟩, h⟩
        exact ⟨⟨hseen, hunseen⟩, made, rest, hmade, hrest, h⟩
      · rintro ⟨⟨_, hunseen⟩, made, rest, hmade, hrest, h⟩
        exact ⟨made, rest, hmade, ⟨hunseen, hrest⟩, h⟩

end Declare

namespace Declaration

open Declare

def dataType? : Declaration → Option (TypeReference TypeExpr)
  | data type _ _ | abstractData type _ => some type
  | synonym .. => none

def keywords : Declaration → List KeywordFormal
  | data _ formals _ | abstractData _ formals => formals
  | synonym .. => []

def variants : Declaration → List Variant
  | data _ _ vs => vs
  | _ => []

def bodyReferences (d : Declaration) : List QualifiedName :=
  KeywordFormal.references d.keywords ++ d.variants.flatMap Variant.references

theorem pending_eq_data_iff {d : Declaration} {type : TypeReference TypeExpr} :
    d.pending = .data type ↔ d.dataType? = some type := by
  cases d <;> simp [pending, dataType?]

theorem pending_eq_synonym_iff {d : Declaration} {type : TypeReference TypeExpr}
    {base : TypeExpr} : d.pending = .synonym type base ↔ d = .synonym type base := by
  cases d <;> simp [pending]

theorem exists_data_of_settled {env : TypeEnv} {d : Declaration} (h : d.pending.Settled env)
    {type : TypeReference TypeExpr} (htype : d.dataType? = some type) :
    ∃ ps, env.formalsOf type = .ok ps ∧ (Definition.data type.name.name ps).Holds env := by
  obtain ⟨x, hx, hholds⟩ := h
  rw [pending_eq_data_iff.2 htype] at hx
  obtain ⟨_, ps, hps, rfl⟩ := Pending.resolve_data_eq_ok.1 hx
  exact ⟨ps, hps, hholds⟩

def Spells (types : TypeEnv) (ds : List Declaration) (key : String × String)
    (fields : List Field) : Prop :=
  ∃ d ∈ ds, ∃ v ∈ d.variants, (d.type.name.name, v.name) = key ∧
    types.fieldsOf 0 v.arguments = .ok fields

variable {types : TypeEnv} {ds : List Declaration} {d : Declaration} {defs : List Definition}

theorem exists_headPlan_iff {type : TypeReference TypeExpr} :
    (∃ defs, headPlan types type = .ok defs) ↔ ∃ ps, types.formalsOf type = .ok ps :=
  exists_map_eq_ok

theorem exists_variantsPlan_iff {t : Ty} {data : String} {vs : List Variant} :
    (∃ defs, variantsPlan types t data [] vs = .ok defs) ↔ (vs.map (·.name)).Nodup ∧
      ∀ r ∈ vs.flatMap Variant.references, types.Declares r := by
  simp only [variantsPlan_eq_ok, exists_and_left, exists_planAll_iff, unseen_nil,
    exists_variantPlan_iff, List.forall_mem_flatMap]

theorem exists_fillingPlan_iff
    (hhead : ∀ d ∈ ds, ∀ type, d.dataType? = some type → ∃ ps, types.formalsOf type = .ok ps) :
    (∃ defs, fillingPlan types ds = .ok defs) ↔ ∀ d ∈ ds,
      (d.variants.map (·.name)).Nodup ∧ ∀ r ∈ d.bodyReferences, types.Declares r := by
  unfold fillingPlan
  rw [exists_andThen_iff, exists_planAll_iff, exists_planAll_iff, ← forall₂_and]
  refine forall₂_congr fun d hd => ?_
  have hhead := hhead d hd
  cases d with
  | data type formals vs =>
    have hhead := exists_headPlan_iff.2 (hhead type rfl)
    simp only [abstractPlan, dataPlan, exists_andThen_iff, hhead, exists_keywordsPlan_iff,
      exists_variantsPlan_iff]
    simp only [bodyReferences, keywords, variants, List.forall_mem_append]
    constructor
    · rintro ⟨_, _, hformals, hnodup, hvariants⟩
      exact ⟨hnodup, hformals, hvariants⟩
    · rintro ⟨hnodup, hformals, hvariants⟩
      exact ⟨⟨[], rfl⟩, trivial, hformals, hnodup, hvariants⟩
  | abstractData type formals =>
    have hhead := exists_headPlan_iff.2 (hhead type rfl)
    simp only [abstractPlan, dataPlan, exists_andThen_iff, hhead, exists_keywordsPlan_iff]
    simp [bodyReferences, keywords, variants]
  | synonym type base =>
    simp [abstractPlan, dataPlan, bodyReferences, keywords, variants, KeywordFormal.references]

def SpelledBy (types : TypeEnv) (ds : List Declaration) : Definition → Prop
  | .data name ps => ∃ d ∈ ds, ∃ type, d.dataType? = some type ∧ type.name.name = name ∧
      types.formalsOf type = .ok ps
  | .synonym .. => False
  | .constructor owner name fields =>
    ∃ data, owner.declaredName? = some data ∧ Spells types ds (data, name) fields
  | .keywords .. => True

theorem spelledBy_of_headPlan {type : TypeReference TypeExpr} {made : List Definition}
    (hd : d ∈ ds) (htype : d.dataType? = some type) (h : headPlan types type = .ok made)
    {x : Definition} (hx : x ∈ made) : SpelledBy types ds x := by
  obtain ⟨ps, hps, hmade⟩ := bind_eq_ok.1 h
  cases pure_eq_ok.1 hmade
  cases List.mem_singleton.1 hx
  exact ⟨d, hd, type, htype, rfl, hps⟩

theorem spelledBy_of_keywordsPlan {owner : KeywordOwner} {formals : List KeywordFormal}
    {made : List Definition} (h : keywordsPlan types owner formals = .ok made)
    {x : Definition} (hx : x ∈ made) : SpelledBy types ds x := by
  unfold keywordsPlan at h
  split at h
  · cases h
    cases hx
  · obtain ⟨entries, _, hmade⟩ := bind_eq_ok.1 h
    cases pure_eq_ok.1 hmade
    cases List.mem_singleton.1 hx
    trivial

theorem spelledBy_of_variantsPlan {ps : List Ty} {made : List Definition} (hd : d ∈ ds)
    (h : variantsPlan types (.data d.type.name.name ps) d.type.name.name [] d.variants = .ok made)
    {x : Definition} (hx : x ∈ made) : SpelledBy types ds x := by
  obtain ⟨v, hv, own, hown, hx⟩ := (mem_planAll (variantsPlan_eq_ok.1 h).2).1 hx
  obtain ⟨fields, rest, hfields, hrest, rfl⟩ := variantPlan_eq_ok.1 hown
  rcases List.mem_cons.1 hx with rfl | hx
  · exact ⟨d.type.name.name, rfl, d, hd, v, hv, rfl, hfields⟩
  · exact spelledBy_of_keywordsPlan hrest hx

theorem spelledBy_of_mem (h : fillingPlan types ds = .ok defs) {x : Definition} (hx : x ∈ defs) :
    SpelledBy types ds x := by
  obtain ⟨as, bs, has, hbs, rfl⟩ := andThen_eq_ok.1 h
  rcases List.mem_append.1 hx with hx | hx
  · obtain ⟨d, hd, made, hmade, hx⟩ := (mem_planAll has).1 hx
    cases d with
    | abstractData type formals =>
      obtain ⟨p, q, hp, hq, rfl⟩ := andThen_eq_ok.1 hmade
      rcases List.mem_append.1 hx with hx | hx
      · exact spelledBy_of_headPlan hd rfl hp hx
      · exact spelledBy_of_keywordsPlan hq hx
    | _ =>
      cases hmade
      cases hx
  · obtain ⟨d, hd, made, hmade, hx⟩ := (mem_planAll hbs).1 hx
    cases d with
    | data type formals vs =>
      obtain ⟨p, _, hp, hrest, rfl⟩ := andThen_eq_ok.1 hmade
      obtain ⟨q, r, hq, hr, rfl⟩ := andThen_eq_ok.1 hrest
      rcases List.mem_append.1 hx with hx | hx
      · exact spelledBy_of_headPlan hd rfl hp hx
      rcases List.mem_append.1 hx with hx | hx
      · exact spelledBy_of_keywordsPlan hq hx
      · exact spelledBy_of_variantsPlan hd hr hx
    | _ =>
      cases hmade
      cases hx

theorem constructor_mem (h : fillingPlan types ds = .ok defs) (hd : d ∈ ds) {v : Variant}
    (hv : v ∈ d.variants) : ∃ owner fields, owner.declaredName? = some d.type.name.name ∧
      types.fieldsOf 0 v.arguments = .ok fields ∧ .constructor owner v.name fields ∈ defs := by
  obtain ⟨as, bs, _, hbs, rfl⟩ := andThen_eq_ok.1 h
  obtain ⟨made, hmade⟩ := exists_planAll_iff.1 ⟨bs, hbs⟩ d hd
  cases d with
  | data type formals vs =>
    obtain ⟨p, _, _, hrest, rfl⟩ := andThen_eq_ok.1 hmade
    obtain ⟨q, r, _, hr, rfl⟩ := andThen_eq_ok.1 hrest
    have hr := (variantsPlan_eq_ok.1 hr).2
    obtain ⟨own, hown⟩ := exists_planAll_iff.1 ⟨r, hr⟩ v hv
    obtain ⟨fields, rest, hfields, _, rfl⟩ := variantPlan_eq_ok.1 hown
    have hmem := (mem_planAll hr).2 ⟨v, hv, _, hown, List.mem_cons_self⟩
    have hmade := (mem_planAll hbs).2 ⟨_, hd, _, hmade,
      List.mem_append_right p (List.mem_append_right q hmem)⟩
    exact ⟨_, fields, rfl, hfields, List.mem_append_right as hmade⟩
  | _ => cases hv

end Declaration

end ParseForest
