import ParseForest.Proofs.Declaration.Contents

/-!
Labels of fields. A field without a label is named for its place, and no two places have the same
name; but such a name may as well be written at another field, and then the two clash. Main
statements: `Variant.clashes_iff`, `fieldRedeclared_variants_iff`, `evaluate_redeclaredField_iff`.
-/

namespace ParseForest

open Success TypeEnv

namespace Variant

/-- Two fields have one label, which is written at the second of them. At the first it is written
as well, or that field has none and is named for its place. -/
def Clashes (v : Variant) : Prop :=
  ∃ (i k : Nat) (a b : TypeArgument TypeExpr) (label : String), i ≠ k ∧ v.arguments[i]? = some a ∧
    v.arguments[k]? = some b ∧ b.label = some label ∧
    (a.label = some label ∨ a.label = none ∧ label = s!"arg{i}")

variable {v : Variant} {i k : Nat} {a b : TypeArgument TypeExpr} {label : String}

theorem place_injective (h : s!"arg{i}" = s!"arg{k}") : i = k := by
  have hdigits : i.repr = k.repr := by simpa using h
  simpa using congrArg (fun s => Nat.ofDigitChars 10 s.toList 0) hdigits

theorem getElem?_labels (i : Nat) :
    v.labels[i]? = v.arguments[i]?.map fun a => a.label.getD s!"arg{i}" :=
  List.getElem?_mapIdx

theorem clashes_of_written (hne : i ≠ k) (ha : v.arguments[i]? = some a)
    (hb : v.arguments[k]? = some b) (hlb : b.label = some label)
    (hla : a.label.getD s!"arg{i}" = label) : v.Clashes := by
  cases h : a.label with
  | some l => exact ⟨i, k, a, b, label, hne, ha, hb, hlb, .inl (by simpa [h] using hla)⟩
  | none => exact ⟨i, k, a, b, label, hne, ha, hb, hlb, .inr ⟨h, by simpa [h] using hla.symm⟩⟩

theorem nodup_of_not_clashes (h : ¬ v.Clashes) : v.labels.Nodup := by
  refine List.pairwise_iff_getElem.2 fun i k hi hk hlt heq => h ?_
  have hi' := List.getElem?_eq_getElem hi
  have hk' := List.getElem?_eq_getElem hk
  rw [← heq] at hk'
  rw [getElem?_labels, Option.map_eq_some_iff] at hi' hk'
  obtain ⟨a, ha, hla⟩ := hi'
  obtain ⟨b, hb, hlb⟩ := hk'
  have hne : i ≠ k := Nat.ne_of_lt hlt
  cases hb' : b.label with
  | some l =>
    have hl : l = v.labels[i] := by simpa [hb'] using hlb
    exact clashes_of_written hne ha hb hb' (hla.trans hl.symm)
  | none =>
    cases ha' : a.label with
    | some l =>
      have hl : l = v.labels[i] := by simpa [ha'] using hla
      exact clashes_of_written hne.symm hb ha ha' (hlb.trans hl.symm)
    | none =>
      have hplaces : s!"arg{i}" = s!"arg{k}" := by
        simpa only [ha', hb', Option.getD_none] using hla.trans hlb.symm
      exact absurd (place_injective hplaces) hne

theorem not_clashes_of_nodup (h : v.labels.Nodup) : ¬ v.Clashes := by
  rintro ⟨i, k, a, b, label, hne, ha, hb, hlb, hla⟩
  have hk : v.labels[k]? = some label := by simp [getElem?_labels, hb, hlb]
  have hi : v.labels[i]? = some label := by
    rcases hla with hla | ⟨hla, rfl⟩ <;> simp [getElem?_labels, ha, hla]
  obtain ⟨hlt, _⟩ := List.getElem?_eq_some_iff.1 hi
  exact hne ((List.getElem?_inj hlt h).1 (hi.trans hk.symm))

theorem clashes_iff : v.Clashes ↔ ¬ v.labels.Nodup :=
  ⟨fun h hnodup => not_clashes_of_nodup hnodup h, fun h => not_not.1 (mt nodup_of_not_clashes h)⟩

end Variant

theorem TypeEnv.SameTypes.declares_iff {types env : TypeEnv} (h : types.SameTypes env)
    {r : QualifiedName} : types.Declares r ↔ env.Declares r := by
  rw [TypeEnv.declares_iff, TypeEnv.declares_iff, h.within.localName? r]
  simp only [h.entry]

theorem TypeEnv.SameTypes.hingesOn {types env : TypeEnv} (h : types.SameTypes env) {α : Type}
    {rs : List QualifiedName} {x : Except Error α} (hx : env.HingesOn rs x) :
    types.HingesOn rs x :=
  ⟨hx.ok_iff.trans (forall₂_congr fun _ _ => h.declares_iff.symm), hx.ok_or_waits⟩

namespace Declare

inductive KeywordStep (types : TypeEnv) (rs : List QualifiedName) (j : Journal) :
    EStateM.Result Error Journal Unit → Prop
  | ok {j' : Journal} (h : ∀ r ∈ rs, types.Declares r) (hsame : types.SameTypes j'.env)
    (hconstructors : j'.env.constructors = j.env.constructors) : KeywordStep types rs j (.ok () j')
  | waits {e : Error} {j' : Journal} (h : ¬ ∀ r ∈ rs, types.Declares r)
    (he : e.isUndeclaredType = true) : KeywordStep types rs j (.error e j')

inductive VariantStep (types : TypeEnv) (v : Variant) (j : Journal) :
    EStateM.Result Error Journal Unit → Prop
  | clash {label : String} {j' : Journal} (h : v.Clashes) :
    VariantStep types v j (.error (.redeclaredField label v.name) j')
  | waits {e : Error} {j' : Journal} (h : ¬ v.Clashes)
    (hkeywords : ¬ ∀ r ∈ KeywordFormal.references v.keywords, types.Declares r)
    (he : e.isUndeclaredType = true) : VariantStep types v j (.error e j')
  | ok {j' : Journal} (h : ¬ v.Clashes)
    (hkeywords : ∀ r ∈ KeywordFormal.references v.keywords, types.Declares r)
    (hsame : types.SameTypes j'.env)
    (hothers : ∀ key : String × String, key.2 ≠ v.name →
      j'.env.constructors.get? key = j.env.constructors.get? key) :
    VariantStep types v j (.ok () j')

section Steps

variable {types : TypeEnv} {j : Journal} {data : String} {ps : List Ty}

theorem keywordStep_keywords (hsame : types.SameTypes j.env) (owner : KeywordOwner)
    (formals : List KeywordFormal) :
    KeywordStep types (KeywordFormal.references formals) j
      ((env >>= fun env => liftM (env.keywordsFor formals) >>= keywords owner
        : Declare Unit) j) := by
  have hrun : (env >>= fun env => liftM (env.keywordsFor formals) >>= keywords owner
      : Declare Unit) j = (liftM (j.env.keywordsFor formals) >>= keywords owner : Declare Unit) j :=
    rfl
  have hhinges := hsame.hingesOn (hingesOn_keywordsFor formals)
  rw [hrun, run_bind, run_lift]
  rcases hhinges.ok_or_waits with ⟨ks, hks⟩ | ⟨e, he, hwaits⟩
  · rw [hks]
    exact .ok (hhinges.ok_iff.1 ⟨ks, hks⟩) ⟨hsame.moduleName, hsame.entry⟩ rfl
  · rw [he]
    refine .waits (fun h => ?_) hwaits
    obtain ⟨ks, hks⟩ := hhinges.ok_iff.2 h
    cases hks.symm.trans he

theorem keywordStep_commonKeywords (hsame : types.SameTypes j.env) (formals : List KeywordFormal) :
    KeywordStep types (KeywordFormal.references formals) j
      (commonKeywords (.data data ps) formals j) := by
  cases formals with
  | nil => exact .ok (by simp [KeywordFormal.references]) hsame rfl
  | cons k ks => exact keywordStep_keywords hsame (.data data) (k :: ks)

theorem keywordStep_own (hsame : types.SameTypes j.env) (owner : KeywordOwner)
    (formals : List KeywordFormal) :
    KeywordStep types (KeywordFormal.references formals) j
      ((if !formals.isEmpty then
        env >>= fun env => liftM (env.keywordsFor formals) >>= keywords owner
      else pure () : Declare Unit) j) := by
  cases formals with
  | nil => exact .ok (by simp [KeywordFormal.references]) hsame rfl
  | cons k ks => exact keywordStep_keywords hsame owner (k :: ks)

theorem variantStep_declareVariant (hsame : types.SameTypes j.env) {v : Variant}
    (hfields : ∀ r ∈ TypeArgument.references v.arguments, types.Declares r)
    (hnew : j.env.constructors.get? (data, v.name) = none) :
    VariantStep types v j (declareVariant (.data data ps) data v j) := by
  obtain ⟨fields, hfields⟩ := (hsame.hingesOn (hingesOn_fieldsOf 0 v.arguments)).ok_iff.2 hfields
  have hclashes : v.Clashes ↔ repeatedLabel? [] fields ≠ none := by
    rw [Variant.clashes_iff, ne_eq, repeatedLabel?_eq_none, unseen_nil, labels_of_fieldsOf hfields]
  have hrun : declareVariant (.data data ps) data v j =
      (liftM (j.env.fieldsOf 0 v.arguments) >>= fun fields =>
        constructor (.data data ps) v.name fields >>= fun _ =>
          if !v.keywords.isEmpty then
            env >>= fun env => liftM (env.keywordsFor v.keywords) >>=
              keywords (.constructor data v.name)
          else pure () : Declare Unit) j := rfl
  rw [hrun, run_bind, run_lift, hfields]
  simp only []
  rw [run_bind, run_constructor]
  cases hrepeated : repeatedLabel? [] fields with
  | some label =>
    have hrefused : j.make (.constructor (.data data ps) v.name fields) =
        .error (.redeclaredField label v.name) :=
      Journal.make_eq_error.2 (by
        simp [Definition.make, declareConstructor, Ty.declaredName?, hrepeated])
    rw [hrefused]
    exact .clash (hclashes.2 (by simp [hrepeated]))
  | none =>
    have hnot : ¬ v.Clashes := fun h => hclashes.1 h hrepeated
    have hdeclared : j.env.declareConstructor (.data data ps) v.name fields =
        .ok { j.env with constructors := j.env.constructors.insert (data, v.name) fields } :=
      declareConstructor_eq_ok.2 ⟨data, rfl, hrepeated, .inr ⟨hnew, rfl⟩⟩
    have hmake : (Definition.constructor (.data data ps) v.name fields).make j.env = .ok _ :=
      hdeclared
    obtain ⟨j₁, hmade⟩ := Journal.exists_make hmake
    have henv := Except.ok.inj (hmake.symm.trans (Journal.make_eq_ok.1 hmade).1)
    have hsame₁ : types.SameTypes j₁.env := henv ▸ ⟨hsame.moduleName, hsame.entry⟩
    rw [hmade]
    have hstep := keywordStep_own hsame₁ (.constructor data v.name) v.keywords
    revert hstep
    simp only []
    generalize (if !v.keywords.isEmpty then
      env >>= fun env => liftM (env.keywordsFor v.keywords) >>=
        keywords (.constructor data v.name)
      else pure () : Declare Unit) j₁ = r
    rintro (⟨hdeclared, hsame', hconstructors⟩ | ⟨hdeclared, hwaits⟩)
    · refine .ok hnot hdeclared hsame' fun key hkey => ?_
      have hne : (data, v.name) ≠ key := fun heq => hkey (heq ▸ rfl)
      rw [hconstructors, ← henv, Table.get?_insert, if_neg hne]
    · exact .waits hnot hdeclared hwaits

def ClashIn (types : TypeEnv) (vs : List Variant) : Prop :=
  ∃ before v after, before ++ v :: after = vs ∧
    (∀ r ∈ KeywordFormal.references (before.flatMap (·.keywords)), types.Declares r) ∧ v.Clashes

theorem clashIn_nil : ¬ ClashIn types [] := by
  rintro ⟨before, v, after, h, _⟩
  cases before <;> cases h

theorem clashIn_cons {v : Variant} {vs : List Variant} :
    ClashIn types (v :: vs) ↔ v.Clashes ∨
      (∀ r ∈ KeywordFormal.references v.keywords, types.Declares r) ∧ ClashIn types vs := by
  simp only [ClashIn, KeywordFormal.references]
  constructor
  · rintro ⟨_ | ⟨w, before⟩, u, after, heq, hdeclared, hclash⟩
    · cases heq
      exact .inl hclash
    · cases heq
      rw [List.flatMap_cons, List.flatMap_append, List.forall_mem_append] at hdeclared
      exact .inr ⟨hdeclared.1, before, u, after, rfl, hdeclared.2, hclash⟩
  · rintro (hclash | ⟨hdeclared, before, u, after, rfl, hbefore, hclash⟩)
    · exact ⟨[], v, vs, rfl, by simp, hclash⟩
    · refine ⟨v :: before, u, after, rfl, ?_, hclash⟩
      rw [List.flatMap_cons, List.flatMap_append, List.forall_mem_append]
      exact ⟨hdeclared, hbefore⟩

def FieldRedeclared (x : EStateM.Result Error Journal Unit) : Prop :=
  ∃ label constructor j, x = .error (.redeclaredField label constructor) j

theorem not_fieldRedeclared_of_waits {e : Error} (he : e.isUndeclaredType = true) :
    ¬ FieldRedeclared (.error e j) := by
  rintro ⟨label, constructor, j', h⟩
  cases h
  cases he

theorem fieldRedeclared_variants_iff {seen : List String} {vs : List Variant}
    (hsame : types.SameTypes j.env) (hnames : Unseen seen (vs.map (·.name)))
    (hfields : ∀ v ∈ vs, ∀ r ∈ TypeArgument.references v.arguments, types.Declares r)
    (hnew : ∀ v ∈ vs, j.env.constructors.get? (data, v.name) = none) :
    FieldRedeclared (variants (.data data ps) data seen vs j) ↔ ClashIn types vs := by
  induction vs generalizing j seen with
  | nil =>
    refine iff_of_false ?_ clashIn_nil
    rintro ⟨_, _, _, h⟩
    cases h
  | cons v vs ih =>
    obtain ⟨hseen, hrest⟩ := unseen_cons.1 hnames
    obtain ⟨hv, hvs⟩ := List.forall_mem_cons.1 hfields
    obtain ⟨hnewv, hnewvs⟩ := List.forall_mem_cons.1 hnew
    rw [clashIn_cons, variants_cons hseen, run_bind]
    have hstep : VariantStep types v j (declareVariant (.data data ps) data v j) :=
      variantStep_declareVariant hsame hv hnewv
    revert hstep
    generalize declareVariant (.data data ps) data v j = r
    rintro (hclash | ⟨hclash, hkeywords, hwaits⟩ | ⟨hclash, hkeywords, hsame', hothers⟩)
    · exact iff_of_true ⟨_, _, _, rfl⟩ (.inl hclash)
    · refine iff_of_false (not_fieldRedeclared_of_waits hwaits) ?_
      rintro (h | ⟨h, _⟩)
      · exact hclash h
      · exact hkeywords h
    -- The variants behind have other names, so their constructors are new as before.
    · rw [ih hsame' hrest hvs fun w hw => ?_]
      · exact ⟨fun h => .inr ⟨hkeywords, h⟩, fun h => (h.resolve_left hclash).2⟩
      · have hne : w.name ≠ v.name := fun heq =>
          hrest.2 w.name (List.mem_map_of_mem hw) (heq ▸ List.mem_cons_self)
        rw [hothers _ hne]
        exact hnewvs w hw

end Steps

end Declare

namespace Declaration

open Declare

section Alone

variable {type : TypeReference TypeExpr} {ks : List KeywordFormal} {vs : List Variant}
  {moduleName : Option String}

theorem settle_singleton (p : Pending) : settle [p] = p.declare := by
  funext j
  unfold settle advance
  rw [run_bind, run_bind]
  unfold attempt
  cases p.declare j with
  | ok _ j' =>
    unfold settle
    rfl
  | error e j' =>
    cases h : e.isUndeclaredType
    · simp [h]
    · simp [h]
      rfl

theorem run_evaluate_data (j : Journal) : evaluate [.data type ks vs] j =
    ((Pending.data type).declare >>= fun _ => evaluateData (.data type ks vs)) j := by
  have hrun : evaluate [.data type ks vs] j = (settle [.data type] >>= fun _ =>
    pure () >>= fun _ => evaluateData (.data type ks vs) >>= fun _ => pure () : Declare Unit) j :=
    rfl
  rw [hrun, settle_singleton]
  simp only [pure_bind, bind_pure_unit]

theorem formalsOf_error {env : TypeEnv} {e : Error} (h : env.formalsOf type = .error e) :
    e.isUndeclaredType = true ∨ e = .expected "type variable" type.span := by
  obtain ⟨formal, _, hformal⟩ := exists_of_mapM_error h
  cases formal with
  | typeVar name bound =>
    rcases (hingesOn_typeOf (.typeVar name bound)).ok_or_waits with ⟨t, ht⟩ | ⟨e', he', hwaits⟩
    · cases ht.symm.trans hformal
    · cases he'.symm.trans hformal
      exact .inl hwaits
  | _ =>
    cases hformal
    exact .inr rfl

theorem not_fieldRedeclared_of_resolve {env : TypeEnv} {e : Error} {j : Journal}
    (h : (Pending.data type).resolve env = .error e) : ¬ FieldRedeclared (.error e j) := by
  rintro ⟨label, constructor, j', heq⟩
  cases heq
  rw [Pending.resolve] at h
  cases hname : declaredName type with
  | error e =>
    rw [hname] at h
    cases h
    unfold declaredName at hname
    split at hname <;> cases hname
  | ok name =>
    rw [hname] at h
    cases hformals : env.formalsOf type with
    | ok formals =>
      simp only [hformals] at h
      cases h
    | error e =>
      simp only [hformals] at h
      cases h
      rcases formalsOf_error hformals with h | h <;> cases h

def alone (moduleName : Option String) (type : TypeReference TypeExpr) (ps : List Ty) : TypeEnv :=
  { empty moduleName with dataTypes := Table.empty.insert type.name.name ps }

variable {ps : List Ty}

theorem declares_alone {r : QualifiedName} : (alone moduleName type ps).Declares r ↔
    (empty moduleName).localName? r = some type.name.name := by
  have hentry : ∀ name, (alone moduleName type ps).entry name =
      (if type.name.name = name then some ps else none, none) :=
    fun name => congrArg (·, none) (Table.get?_insert ..)
  have hlocal : (alone moduleName type ps).localName? r = (empty moduleName).localName? r := rfl
  rw [declares_iff, hlocal]
  constructor
  · rintro ⟨name, hname, hdeclared⟩
    rw [hentry] at hdeclared
    have heq : type.name.name = name := by_contra fun hne => hdeclared (by rw [if_neg hne])
    rw [heq, hname]
  · intro hname
    exact ⟨_, hname, by simp [hentry]⟩

theorem clashIn_alone_iff (ps : List Ty) :
    (∃ before v after, before ++ v :: after = vs ∧
      (∀ r ∈ KeywordFormal.references (ks ++ before.flatMap (·.keywords)),
        (empty moduleName).localName? r = some type.name.name) ∧ v.Clashes) ↔
    (∀ r ∈ KeywordFormal.references ks, (alone moduleName type ps).Declares r) ∧
      ClashIn (alone moduleName type ps) vs := by
  simp only [ClashIn, KeywordFormal.references, List.flatMap_append, List.forall_mem_append,
    declares_alone]
  constructor
  · rintro ⟨before, v, after, hvs, ⟨hks, hbefore⟩, hclash⟩
    exact ⟨hks, before, v, after, hvs, hbefore, hclash⟩
  · rintro ⟨hks, before, v, after, hvs, hbefore, hclash⟩
    exact ⟨before, v, after, hvs, ⟨hks, hbefore⟩, hclash⟩

theorem run_dataType_alone (hname : type.introduced? = some type.name.name)
    (hps : (empty moduleName).formalsOf type = .ok ps) {j : Journal}
    (hj : j.env = alone moduleName type ps) :
    ∃ j', dataType type j = .ok (.data type.name.name ps) j' ∧
      j'.env = alone moduleName type ps := by
  have hwithin : (empty moduleName).Within (alone moduleName type ps) := ⟨rfl, fun _ => .inl rfl⟩
  have hdeclared : j.env.declareData type.name.name ps = .ok (j.env, .data type.name.name ps) := by
    refine declareData_eq_ok.2 ⟨hj ▸ rfl, .inl ⟨ps, ?_, rfl, rfl, rfl⟩⟩
    rw [hj, alone, Table.get?_insert, if_pos rfl]
  rw [run_dataType, declaredName_eq_ok.2 hname]
  simp only [hj, (hwithin.formalsOf type).ok hps]
  rw [run_data, hdeclared]
  exact ⟨_, rfl, hj⟩

theorem fieldRedeclared_evaluateData_iff (hname : type.introduced? = some type.name.name)
    (hps : (empty moduleName).formalsOf type = .ok ps) (hnames : (vs.map (·.name)).Nodup)
    (hfields : ∀ v ∈ vs, ∀ r ∈ TypeArgument.references v.arguments,
      (empty moduleName).localName? r = some type.name.name) {j : Journal}
    (hj : j.env = alone moduleName type ps) :
    FieldRedeclared (evaluateData (.data type ks vs) j) ↔
      (∀ r ∈ KeywordFormal.references ks, (alone moduleName type ps).Declares r) ∧
        ClashIn (alone moduleName type ps) vs := by
  have hevaluate : evaluateData (.data type ks vs) j = (dataType type >>= fun declared =>
    commonKeywords declared ks >>= fun _ => liftM (declaredName type) >>= fun name =>
      Declare.variants declared name [] vs : Declare Unit) j := rfl
  obtain ⟨j₁, hrun, hj₁⟩ := run_dataType_alone hname hps hj
  rw [hevaluate, run_bind, hrun]
  simp only []
  rw [run_bind, declaredName_eq_ok.2 hname]
  have hstep : KeywordStep (alone moduleName type ps) (KeywordFormal.references ks) j₁
      (commonKeywords (.data type.name.name ps) ks j₁) :=
    keywordStep_commonKeywords (hj₁ ▸ .refl _) ks
  revert hstep
  generalize commonKeywords (.data type.name.name ps) ks j₁ = r
  rintro (@⟨j₂, hkeywords, hsame, hconstructors⟩ | ⟨hkeywords, hwaits⟩)
  · have hnew : ∀ v ∈ vs, j₂.env.constructors.get? (type.name.name, v.name) = none := by
      intro v _
      rw [hconstructors, hj₁]
      rfl
    rw [and_iff_right hkeywords]
    exact fieldRedeclared_variants_iff hsame (unseen_nil.2 hnames)
      (fun v hv r hr => declares_alone.2 (hfields v hv r hr)) hnew
  · refine iff_of_false (not_fieldRedeclared_of_waits hwaits) ?_
    rintro ⟨h, _⟩
    exact hkeywords h

/-- A declaration evaluated alone, whose fields are of types that are declared, is refused for two
fields of one label exactly if there are two such fields in a variant, the names for places
included, and nothing in front of that variant fails. -/
theorem evaluate_redeclaredField_iff (hnames : (vs.map (·.name)).Nodup)
    (hfields : ∀ v ∈ vs, ∀ r ∈ TypeArgument.references v.arguments,
      (empty moduleName).localName? r = some type.name.name) :
    (∃ label constructor j, evaluate [.data type ks vs] (.ofEnv (.empty moduleName)) =
        .error (.redeclaredField label constructor) j) ↔
      (type.introduced? = some type.name.name ∧
        ∃ ps, (empty moduleName).formalsOf type = .ok ps) ∧
      ∃ before v after, before ++ v :: after = vs ∧
        (∀ r ∈ KeywordFormal.references (ks ++ before.flatMap (·.keywords)),
          (empty moduleName).localName? r = some type.name.name) ∧ v.Clashes := by
  show FieldRedeclared _ ↔ _
  rw [run_evaluate_data, run_bind, Pending.run_declare]
  have henv : (Journal.ofEnv (.empty moduleName)).env = empty moduleName := rfl
  cases hresolved : (Pending.data type).resolve (empty moduleName) with
  | error e =>
    simp only [henv, hresolved]
    refine iff_of_false (not_fieldRedeclared_of_resolve hresolved) ?_
    rintro ⟨⟨hname, ps, hps⟩, _⟩
    cases hresolved.symm.trans (Pending.resolve_data_eq_ok.2 ⟨hname, ps, hps, rfl⟩)
  | ok d =>
    obtain ⟨hname, ps, hps, rfl⟩ := Pending.resolve_data_eq_ok.1 hresolved
    obtain ⟨j, hmade, hj⟩ : ∃ j, (Journal.ofEnv (.empty moduleName)).make
        (.data type.name.name ps) = .ok j ∧ j.env = alone moduleName type ps := ⟨_, rfl, rfl⟩
    simp only [henv, hresolved, hmade]
    rw [fieldRedeclared_evaluateData_iff hname hps hnames hfields hj, clashIn_alone_iff ps]
    exact (and_iff_right ⟨hname, ps, hps⟩).symm

end Alone

def failure? : EStateM.Result Error Journal Unit → Option Error
  | .ok .. => none
  | .error e _ => some e

theorem exists_of_failure? {x : EStateM.Result Error Journal Unit} {e : Error}
    (h : failure? x = some e) : ∃ j, x = .error e j := by
  cases x with
  | ok _ j => cases h
  | error e' j =>
    cases h
    exact ⟨j, rfl⟩

def crossed : List Variant :=
  [⟨"leaf", [], []⟩,
    ⟨"node", [⟨.user (byName "Tree"), none⟩, ⟨.user (byName "Tree"), some "arg0"⟩], []⟩]

theorem evaluate_crossed : ∃ label constructor j,
    evaluate [.data (byName "Tree") [] crossed] (.ofEnv (.empty none)) =
      .error (.redeclaredField label constructor) j := by
  refine (evaluate_redeclaredField_iff (by decide) ?_).2 ⟨⟨rfl, [], rfl⟩, [⟨"leaf", [], []⟩],
    ⟨"node", [⟨.user (byName "Tree"), none⟩, ⟨.user (byName "Tree"), some "arg0"⟩], []⟩, [], rfl,
    ?_, 0, 1, _, _, "arg0", by decide, rfl, rfl, rfl, .inr ⟨rfl, by decide⟩⟩
  · decide
  · decide

/-- The labels that are written differ and two fields have one all the same. Two written ones that
agree are not reached where a type is not declared in front of them. -/
theorem labels_crossed :
    (crossed.map (·.name)).Nodup ∧ (∀ v ∈ crossed, (v.arguments.filterMap (·.label)).Nodup) ∧
    (∃ j, evaluate [.data (byName "Tree") [] crossed] (.ofEnv (.empty none)) =
      .error (.redeclaredField "arg0" "node") j) ∧
    ∃ j, evaluate [.data (byName "Tree") [⟨.user (byName "Label"), "key", defaultOne⟩]
        [⟨"node", [⟨.builtin .int, some "x"⟩, ⟨.builtin .int, some "x"⟩], []⟩]]
      (.ofEnv (.empty none)) = .error (.undeclaredType "Label") j :=
  ⟨by decide, by decide, exists_of_failure? (by decide +kernel),
    exists_of_failure? (by decide +kernel)⟩

end Declaration

end ParseForest
