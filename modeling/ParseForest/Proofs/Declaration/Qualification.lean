import ParseForest.Proofs.Declaration.Contents
import ParseForest.Proofs.Declaration.Lockstep

/-!
References with qualifiers. In the environment of a module a type name with the name of that module
before it refers to what the name alone refers to, so that any choice of references can be qualified
with the own module and evaluation stays in step. With another qualifier no reference is resolved.
Main statements: `lockstep_evaluate`, `declares_of_evaluate`, `evaluate_qualified`.
-/

namespace ParseForest

open Success

namespace QualifiedName

section Parts

variable {α : Type}

theorem intersperse_injective (sep : α) : ∀ {l l' : List α},
    l.intersperse sep = l'.intersperse sep → l = l'
  | [], [], _ => rfl
  | [a], [b], h => h
  | [], [_], h | [], _ :: _ :: _, h | [_], [], h | _ :: _ :: _, [], h => by cases h
  | [_], _ :: _ :: _, h | _ :: _ :: _, [_], h => by cases h
  | a :: b :: l, a' :: b' :: l', h => by
    rw [List.intersperse_cons_cons, List.intersperse_cons_cons] at h
    injection h with ha h
    injection h with _ h
    rw [ha, intersperse_injective sep h]

theorem mem_intersperse {sep : α} : ∀ {l : List α} {a : α},
    a ∈ l.intersperse sep → a = sep ∨ a ∈ l
  | [], _, h | [_], _, h => .inr h
  | b :: c :: l, a, h => by
    rw [List.intersperse_cons_cons] at h
    rcases List.mem_cons.1 h with rfl | h
    · exact .inr List.mem_cons_self
    rcases List.mem_cons.1 h with rfl | h
    · exact .inl rfl
    · exact (mem_intersperse h).imp_right (List.mem_cons_of_mem b)

theorem intercalate_pair (x : α) : ∀ ls : List (List α),
    [x, x].intercalate ls = [x].intercalate (ls.intersperse [])
  | [] | [_] => rfl
  | l :: l' :: ls => by
    have hrest := intercalate_pair x (l' :: ls)
    cases ls with
    | nil => simp [List.intercalate]
    | cons => simpa [List.intercalate] using hrest

end Parts

/-- Parts that names may have, without a colon. -/
def Plain (parts : List String) : Prop := parts ≠ [] ∧ ∀ part ∈ parts, ':' ∉ part.toList

theorem splitOn_joined {parts : List String} (h : Plain parts) :
    (joined parts).toList.splitOn ':' = (parts.map String.toList).intersperse [] := by
  obtain ⟨hne, hparts⟩ := h
  rw [joined, String.toList_intercalate]
  refine (congrArg _ (intercalate_pair ':' _)).trans (List.splitOn_intercalate ':' ?_ ?_)
  · intro chars hchars
    rcases mem_intersperse hchars with rfl | hchars
    · exact List.not_mem_nil
    · obtain ⟨part, hpart, rfl⟩ := List.mem_map.1 hchars
      exact hparts part hpart
  · rcases parts with _ | ⟨a, _ | _⟩ <;> simp at hne ⊢

theorem joined_injective {parts parts' : List String} (h : Plain parts) (h' : Plain parts')
    (heq : joined parts = joined parts') : parts = parts' := by
  have hsplit := splitOn_joined h
  rw [heq, splitOn_joined h'] at hsplit
  have hchars := intersperse_injective [] hsplit
  exact (List.map_injective_iff.2 (fun _ _ => String.toList_inj.1) hchars).symm

/-- With another qualifier than the parts of the module. -/
def Foreign (q : List String) (r : QualifiedName) : Prop :=
  r.isQualified ∧ joined r.qualifiers ≠ joined q

theorem foreign_of_plain {q : List String} {r : QualifiedName} (hq : Plain q)
    (hr : Plain r.qualifiers) (hne : r.qualifiers ≠ q) : r.Foreign q := by
  refine ⟨?_, fun heq => hne (joined_injective hr hq heq)⟩
  simpa [isQualified] using hr.1

end QualifiedName

/-- The name as it is, or with a qualifier where it had none. -/
def QualifiedName.Qualifies (q : List String) (name name' : QualifiedName) : Prop :=
  name = name' ∨ name.qualifiers = [] ∧ ⟨q, name.name⟩ = name'

mutual
/-- Some of the references in the first expression that had no qualifier have got one. -/
inductive TypeExpr.Qualifies (q : List String) : TypeExpr → TypeExpr → Prop
  | builtin {b : Builtin} : TypeExpr.Qualifies q (.builtin b) (.builtin b)
  | structured {kind : Builtin} {args args' : List (TypeArgument TypeExpr)}
    (h : TypeArgument.Qualify q args args') :
    TypeExpr.Qualifies q (.structured kind args) (.structured kind args')
  | user {name name' : QualifiedName} {es es' : List TypeExpr} {span : Option Span}
    (hname : name.Qualifies q name') (h : TypeExpr.Qualify q es es') :
    TypeExpr.Qualifies q (.user ⟨name, es, span⟩) (.user ⟨name', es', span⟩)
  | free {name : String} : TypeExpr.Qualifies q (.typeVar name none) (.typeVar name none)
  | bounded {name : String} {bound bound' : TypeExpr} (h : TypeExpr.Qualifies q bound bound') :
    TypeExpr.Qualifies q (.typeVar name (some bound)) (.typeVar name (some bound'))
  | symbol {s : Symbol} : TypeExpr.Qualifies q (.symbol s) (.symbol s)

inductive TypeExpr.Qualify (q : List String) : List TypeExpr → List TypeExpr → Prop
  | nil : TypeExpr.Qualify q [] []
  | cons {e e' : TypeExpr} {es es' : List TypeExpr} (h : TypeExpr.Qualifies q e e')
    (hs : TypeExpr.Qualify q es es') : TypeExpr.Qualify q (e :: es) (e' :: es')

inductive TypeArgument.Qualify (q : List String) :
    List (TypeArgument TypeExpr) → List (TypeArgument TypeExpr) → Prop
  | nil : TypeArgument.Qualify q [] []
  | cons {e e' : TypeExpr} {label : Option String} {args args' : List (TypeArgument TypeExpr)}
    (h : TypeExpr.Qualifies q e e') (hs : TypeArgument.Qualify q args args') :
    TypeArgument.Qualify q (⟨e, label⟩ :: args) (⟨e', label⟩ :: args')
end

/-- The name that is declared is no reference, only what its parameters mention. -/
structure TypeReference.Qualifies (q : List String) (type type' : TypeReference TypeExpr) :
    Prop where
  name : type.name = type'.name
  parameters : TypeExpr.Qualify q type.parameters type'.parameters
  span : type.span = type'.span

structure KeywordFormal.Qualifies (q : List String) (k k' : KeywordFormal) : Prop where
  type : k.type.Qualifies q k'.type
  name : k.name = k'.name
  default : k.default = k'.default

structure Variant.Qualifies (q : List String) (v v' : Variant) : Prop where
  name : v.name = v'.name
  arguments : TypeArgument.Qualify q v.arguments v'.arguments
  keywords : List.Forall₂ (KeywordFormal.Qualifies q) v.keywords v'.keywords

inductive Declaration.Qualifies (q : List String) : Declaration → Declaration → Prop
  | data {type type' : TypeReference TypeExpr} {ks ks' : List KeywordFormal}
    {vs vs' : List Variant} (htype : type.Qualifies q type')
    (hks : List.Forall₂ (KeywordFormal.Qualifies q) ks ks')
    (hvs : List.Forall₂ (Variant.Qualifies q) vs vs') :
    Qualifies q (.data type ks vs) (.data type' ks' vs')
  | abstractData {type type' : TypeReference TypeExpr} {ks ks' : List KeywordFormal}
    (htype : type.Qualifies q type') (hks : List.Forall₂ (KeywordFormal.Qualifies q) ks ks') :
    Qualifies q (.abstractData type ks) (.abstractData type' ks')
  | synonym {type type' : TypeReference TypeExpr} {base base' : TypeExpr}
    (htype : type.Qualifies q type') (hbase : base.Qualifies q base') :
    Qualifies q (.synonym type base) (.synonym type' base')

theorem TypeExpr.Qualify.forall₂ {q : List String} : ∀ {es es' : List TypeExpr},
    TypeExpr.Qualify q es es' → List.Forall₂ (TypeExpr.Qualifies q) es es'
  | _, _, .nil => .nil
  | _, _, .cons h hs => .cons h hs.forall₂

namespace TypeEnv

variable {q : List String} {env : TypeEnv}

theorem localName?_qualifies (hm : env.moduleName = some (QualifiedName.joined q))
    {name name' : QualifiedName} (h : name.Qualifies q name') :
    env.localName? name = env.localName? name' := by
  rcases h with rfl | ⟨hname, rfl⟩
  · rfl
  · cases q with
    | nil => simp [localName?, QualifiedName.qualifier?, QualifiedName.isQualified, hname]
    | cons part parts =>
      simp [localName?, QualifiedName.qualifier?, QualifiedName.isQualified, hname, hm]

theorem lookup?_qualifies (hm : env.moduleName = some (QualifiedName.joined q))
    {name name' : QualifiedName} (h : name.Qualifies q name') :
    env.lookup? name = env.lookup? name' := by
  unfold lookup?
  rw [localName?_qualifies hm h]

theorem localName?_of_foreign (hm : env.moduleName = some (QualifiedName.joined q))
    {r : QualifiedName} (h : r.Foreign q) : env.localName? r = none := by
  obtain ⟨hqualified, hne⟩ := h
  simp [localName?, QualifiedName.qualifier?, hqualified, hm, Ne.symm hne]

theorem not_declares_of_foreign (hm : env.moduleName = some (QualifiedName.joined q))
    {r : QualifiedName} (h : r.Foreign q) : ¬ env.Declares r := by
  rw [declares_iff, localName?_of_foreign hm h]
  simp

mutual
theorem sameOutcome_typeOf (hm : env.moduleName = some (QualifiedName.joined q)) :
    ∀ {e e' : TypeExpr}, e.Qualifies q e' → SameOutcome Eq (env.typeOf e) (env.typeOf e')
  | _, _, .builtin | _, _, .free | _, _, .symbol => .refl _
  | _, _, .structured h => (sameOutcome_argumentTypes hm h).bind_eq fun _ => .refl _
  | .user ⟨_, _, _⟩, .user ⟨name', _, _⟩, .user hname h => by
    unfold typeOf
    rw [lookup?_qualifies hm hname]
    cases env.lookup? name' with
    | none => exact .error (.inr ⟨_, _, rfl, rfl⟩)
    | some declared =>
      cases h with
      | nil => exact .refl _
      | cons h hs => exact (sameOutcome_typesOf hm (.cons h hs)).bind_eq fun _ => .refl _
  | _, _, .bounded h => (sameOutcome_typeOf hm h).bind_eq fun _ => .refl _

theorem sameOutcome_typesOf (hm : env.moduleName = some (QualifiedName.joined q)) :
    ∀ {es es' : List TypeExpr}, TypeExpr.Qualify q es es' →
      SameOutcome Eq (env.typesOf es) (env.typesOf es')
  | _, _, .nil => .refl _
  | _, _, .cons h hs =>
    (sameOutcome_typeOf hm h).bind_eq fun _ => (sameOutcome_typesOf hm hs).bind_eq fun _ => .refl _

theorem sameOutcome_argumentTypes (hm : env.moduleName = some (QualifiedName.joined q)) :
    ∀ {args args' : List (TypeArgument TypeExpr)}, TypeArgument.Qualify q args args' →
      SameOutcome Eq (env.argumentTypes args) (env.argumentTypes args')
  | _, _, .nil => .refl _
  | _, _, .cons h hs =>
    (sameOutcome_typeOf hm h).bind_eq fun _ =>
      (sameOutcome_argumentTypes hm hs).bind_eq fun _ => .refl _
end

theorem sameOutcome_fieldsOf (hm : env.moduleName = some (QualifiedName.joined q)) :
    ∀ {args args' : List (TypeArgument TypeExpr)} (index : Nat), TypeArgument.Qualify q args args' →
      SameOutcome Eq (env.fieldsOf index args) (env.fieldsOf index args')
  | _, _, _, .nil => .refl _
  | _, _, index, .cons h hs =>
    (sameOutcome_typeOf hm h).bind_eq fun _ =>
      (sameOutcome_fieldsOf hm (index + 1) hs).bind_eq fun _ => .refl _

theorem sameOutcome_formalsOf (hm : env.moduleName = some (QualifiedName.joined q))
    {type type' : TypeReference TypeExpr} (h : type.Qualifies q type') :
    SameOutcome Eq (env.formalsOf type) (env.formalsOf type') := by
  unfold formalsOf
  rw [h.span]
  refine .mapM (h.parameters.forall₂.imp fun e e' he => ?_)
  cases he with
  | bounded hbound => exact sameOutcome_typeOf hm (.bounded hbound)
  | _ => exact .refl _

theorem sameOutcome_keywordsFor (hm : env.moduleName = some (QualifiedName.joined q))
    {ks ks' : List KeywordFormal} (h : List.Forall₂ (KeywordFormal.Qualifies q) ks ks') :
    SameOutcome Eq (env.keywordsFor ks) (env.keywordsFor ks') := by
  refine .mapM (h.imp fun k k' hk => ?_)
  rw [hk.name, hk.default]
  exact (sameOutcome_typeOf hm hk.type).bind_eq fun _ => .refl _

theorem declaredName_qualifies {type type' : TypeReference TypeExpr} (h : type.Qualifies q type') :
    declaredName type = declaredName type' := by
  unfold declaredName
  rw [h.name]

end TypeEnv

open TypeEnv

namespace Declare

variable {q : List String}

inductive Pending.Qualifies (q : List String) : Pending → Pending → Prop
  | data {type type' : TypeReference TypeExpr} (htype : type.Qualifies q type') :
    Qualifies q (.data type) (.data type')
  | synonym {type type' : TypeReference TypeExpr} {base base' : TypeExpr}
    (htype : type.Qualifies q type') (hbase : base.Qualifies q base') :
    Qualifies q (.synonym type base) (.synonym type' base')

theorem Pending.sameOutcome_resolve {env : TypeEnv}
    (hm : env.moduleName = some (QualifiedName.joined q)) {p p' : Pending} (h : p.Qualifies q p') :
    SameOutcome Eq (p.resolve env) (p'.resolve env) := by
  cases h with
  | data htype =>
    simp only [resolve, declaredName_qualifies htype]
    refine (SameOutcome.refl _).bind_eq fun name => ?_
    exact (sameOutcome_formalsOf hm htype).bind_eq fun _ => .refl _
  | synonym htype hbase =>
    simp only [resolve, declaredName_qualifies htype]
    refine (sameOutcome_typeOf hm hbase).bind_eq fun base => ?_
    refine (SameOutcome.refl _).bind_eq fun name => ?_
    exact (sameOutcome_formalsOf hm htype).bind_eq fun _ => .refl _

abbrev InStep (q : List String) (x y : Declare Unit) : Prop :=
  Lockstep (some (QualifiedName.joined q)) Eq x y

theorem lockstep_dataType {type type' : TypeReference TypeExpr} (h : type.Qualifies q type') :
    Lockstep (some (QualifiedName.joined q)) Eq (dataType type) (dataType type') := by
  unfold dataType
  rw [declaredName_qualifies h]
  refine (lockstep_lift (.refl _)).bind_eq fun name => ?_
  exact lockstep_read (fun _ hm => sameOutcome_formalsOf hm h) fun formals =>
    lockstep_data name formals

theorem lockstep_commonKeywords (type : Ty) {ks ks' : List KeywordFormal}
    (h : List.Forall₂ (KeywordFormal.Qualifies q) ks ks') :
    InStep q (commonKeywords type ks) (commonKeywords type ks') := by
  unfold commonKeywords
  cases h with
  | nil => exact lockstep_pure rfl
  | cons hk hks =>
    cases type.declaredName? with
    | none => exact lockstep_pure rfl
    | some name =>
      exact lockstep_read (fun _ hm => sameOutcome_keywordsFor hm (.cons hk hks)) fun c =>
        lockstep_keywords (.data name) c

theorem lockstep_declareVariant (type : Ty) (data : String) {v v' : Variant}
    (h : v.Qualifies q v') :
    InStep q (declareVariant type data v) (declareVariant type data v') := by
  unfold declareVariant
  rw [h.name]
  refine lockstep_read (fun _ hm => sameOutcome_fieldsOf hm 0 h.arguments) fun fields => ?_
  refine (lockstep_constructor type v'.name fields).bind_eq fun _ => ?_
  have hks := h.keywords
  revert hks
  generalize v.keywords = ks
  generalize v'.keywords = ks'
  rintro (_ | ⟨hk, hks⟩)
  · exact lockstep_pure rfl
  · exact lockstep_read (fun _ hm => sameOutcome_keywordsFor hm (.cons hk hks)) fun c =>
      lockstep_keywords _ c

theorem lockstep_variants (type : Ty) (data : String) (seen : List String) {vs vs' : List Variant}
    (h : List.Forall₂ (Variant.Qualifies q) vs vs') :
    InStep q (variants type data seen vs) (variants type data seen vs') := by
  induction h generalizing seen with
  | nil => exact lockstep_pure rfl
  | @cons v v' vs vs' hv hvs ih =>
    by_cases hseen : v.name ∈ seen
    · simp only [variants, if_pos hseen, if_pos (hv.name ▸ hseen)]
      rw [hv.name]
      exact lockstep_throw (.inl rfl)
    · have hseen' : v'.name ∉ seen := hv.name ▸ hseen
      rw [variants_cons hseen, variants_cons hseen', hv.name]
      exact (lockstep_declareVariant type data hv).bind_eq fun _ => ih _

end Declare

namespace Declaration

open Declare

variable {q : List String} {ds ds' : List Declaration}

theorem lockstep_evaluateAbstract {d d' : Declaration} (h : d.Qualifies q d') :
    InStep q d.evaluateAbstract d'.evaluateAbstract := by
  cases h with
  | abstractData htype hks =>
    exact (lockstep_dataType htype).bind_eq fun type => lockstep_commonKeywords type hks
  | _ => exact lockstep_pure rfl

theorem lockstep_evaluateData {d d' : Declaration} (h : d.Qualifies q d') :
    InStep q d.evaluateData d'.evaluateData := by
  cases h with
  | data htype hks hvs =>
    simp only [evaluateData, declaredName_qualifies htype]
    refine (lockstep_dataType htype).bind_eq fun type => ?_
    refine (lockstep_commonKeywords type hks).bind_eq fun _ => ?_
    exact (lockstep_lift (.refl _)).bind_eq fun name => lockstep_variants type name [] hvs
  | _ => exact lockstep_pure rfl

theorem forall₂_pendingData (h : List.Forall₂ (Declaration.Qualifies q) ds ds') :
    List.Forall₂ (Pending.Qualifies q) (ds.filterMap pendingData) (ds'.filterMap pendingData) := by
  induction h with
  | nil => exact .nil
  | cons hd _ ih =>
    cases hd with
    | data htype | abstractData htype => exact .cons (.data htype) ih
    | synonym => exact ih

theorem forall₂_pendingSynonym (h : List.Forall₂ (Declaration.Qualifies q) ds ds') :
    List.Forall₂ (Pending.Qualifies q) (ds.filterMap pendingSynonym)
      (ds'.filterMap pendingSynonym) := by
  induction h with
  | nil => exact .nil
  | cons hd _ ih =>
    cases hd with
    | data | abstractData => exact ih
    | synonym htype hbase => exact .cons (.synonym htype hbase) ih

theorem lockstep_evaluate (h : List.Forall₂ (Declaration.Qualifies q) ds ds') :
    InStep q (evaluate ds) (evaluate ds') := by
  have hpending := List.rel_append (forall₂_pendingData h) (forall₂_pendingSynonym h)
  have hdeclare : ∀ p p', Pending.Qualifies q p p' → InStep q p.declare p'.declare :=
    fun p p' hp => lockstep_declare fun _ hm => Pending.sameOutcome_resolve hm hp
  refine (lockstep_settle hdeclare hpending).bind_eq fun _ => ?_
  refine (lockstep_forM (h.imp fun _ _ hd => lockstep_evaluateAbstract hd)).bind_eq fun _ => ?_
  exact lockstep_forM (h.imp fun _ _ hd => lockstep_evaluateData hd)

def references (d : Declaration) : List QualifiedName := d.pending.references ++ d.bodyReferences

theorem moduleName_of_evaluate {j j' : Journal} (h : evaluate ds j = .ok () j') :
    j'.env.moduleName = j.env.moduleName := by
  obtain ⟨m, defs, hsettled, _, _, hmade⟩ := exists_phases h
  obtain ⟨ps, _, hall⟩ := exists_of_settle hsettled
  exact (makeAll_moduleName hmade).trans (declareAll_within hall).moduleName.symm

theorem declares_of_evaluate {j j' : Journal} (h : evaluate ds j = .ok () j') {d : Declaration}
    (hd : d ∈ ds) {r : QualifiedName} (hr : r ∈ d.references) : j'.env.Declares r := by
  obtain ⟨m, defs, hsettled, hsame, hplan, _⟩ := exists_phases h
  have hsettled : ∀ d ∈ ds, d.pending.Settled j'.env := fun d hd =>
    (settled_of_mem hsettled hd).within hsame.within
  rcases List.mem_append.1 hr with hr | hr
  · obtain ⟨x, hx, _⟩ := hsettled d hd
    exact (Pending.hingesOn_resolve (Pending.resolve_subject hx) (Pending.generic_of_resolve hx)
      j'.env).ok_iff.1 ⟨x, hx⟩ r hr
  · refine ((exists_fillingPlan_iff fun d hd type htype => ?_).1 ⟨defs, hplan⟩ d hd).2 r hr
    obtain ⟨ps, hps, _⟩ := exists_data_of_settled (hsettled d hd) htype
    exact ⟨ps, hps⟩

/-- In a module it makes no difference which references have its name before them. With the name of
another before it no reference is resolved. -/
theorem evaluate_qualified {j : Journal} (hm : j.env.moduleName = some (QualifiedName.joined q))
    (h : List.Forall₂ (Declaration.Qualifies q) ds ds') :
    EndsAlike (some (QualifiedName.joined q)) Eq (evaluate ds j) (evaluate ds' j) ∧
    (∀ r : QualifiedName, r.Foreign q → j.env.lookup? r = none ∧
      ∀ es : List Declaration, (∃ d ∈ es, r ∈ d.references) → ∀ j', evaluate es j ≠ .ok () j') ∧
    (QualifiedName.Plain q → ∀ r : QualifiedName, QualifiedName.Plain r.qualifiers →
      r.qualifiers ≠ q → r.Foreign q) := by
  refine ⟨lockstep_evaluate h j hm, fun r hr => ⟨?_, ?_⟩, fun hq r hr hne => ?_⟩
  · exact not_not.1 (not_declares_of_foreign hm hr)
  · rintro es ⟨d, hd, hmem⟩ j' hok
    have hm' := (moduleName_of_evaluate hok).trans hm
    exact not_declares_of_foreign hm' hr (declares_of_evaluate hok hd hmem)
  · exact QualifiedName.foreign_of_plain hq hr hne

def treeIn (q : List String) : TypeExpr := .user ⟨⟨q, "Tree"⟩, [], none⟩

def boxIn (q : List String) : TypeReference TypeExpr :=
  ⟨⟨[], "Box"⟩, [.typeVar "T" (some (treeIn q))], none⟩

def nodeIn (q : List String) : Variant :=
  ⟨"node", [⟨.user ⟨⟨q, "Box"⟩, [treeIn q], none⟩, some "below"⟩], [⟨treeIn q, "next", defaultOne⟩]⟩

def referring (q : List String) : List Declaration :=
  [.abstractData (boxIn q) [],
    .synonym (byName "Trees") (.structured .list [⟨treeIn q, none⟩]),
    .data (byName "Tree") [⟨.user (byName "Trees"), "parents", defaultOne⟩] [nodeIn q]]

theorem qualifies_referring (q : List String) :
    List.Forall₂ (Declaration.Qualifies q) (referring []) (referring q) := by
  have htree : (treeIn []).Qualifies q (treeIn q) := .user (.inr ⟨rfl, rfl⟩) .nil
  have hbox : (boxIn []).Qualifies q (boxIn q) := ⟨rfl, .cons (.bounded htree) .nil, rfl⟩
  have hnode : (nodeIn []).Qualifies q (nodeIn q) :=
    ⟨rfl, .cons (.user (.inr ⟨rfl, rfl⟩) (.cons htree .nil)) .nil, .cons ⟨htree, rfl, rfl⟩ .nil⟩
  have hname : ∀ name, (byName name).Qualifies q (byName name) := fun _ => ⟨rfl, .nil, rfl⟩
  have hparents : KeywordFormal.Qualifies q ⟨.user (byName "Trees"), "parents", defaultOne⟩
      ⟨.user (byName "Trees"), "parents", defaultOne⟩ := ⟨.user (.inl rfl) .nil, rfl, rfl⟩
  exact .cons (.abstractData hbox .nil) <|
    .cons (.synonym (hname _) (.structured (.cons htree .nil))) <|
      .cons (.data (hname _) (.cons hparents .nil) (.cons hnode .nil)) .nil

theorem evaluate_referring :
    (∃ j, evaluate (referring []) (.ofEnv (.empty (some "a::b"))) = .ok () j ∧
      evaluate (referring ["a", "b"]) (.ofEnv (.empty (some "a::b"))) = .ok () j) ∧
    ∀ j, evaluate (referring ["b"]) (.ofEnv (.empty (some "a::b"))) ≠ .ok () j := by
  have hm : (Journal.ofEnv (.empty (some "a::b"))).env.moduleName =
    some (QualifiedName.joined ["a", "b"]) := by decide
  obtain ⟨halike, hnever, hforeign⟩ := evaluate_qualified hm (qualifies_referring ["a", "b"])
  refine ⟨?_, ?_⟩
  · obtain ⟨j, hj⟩ : ∃ j, evaluate (referring []) (.ofEnv (.empty (some "a::b"))) = .ok () j :=
      exists_of_succeeds (by decide +kernel)
    rw [hj] at halike
    refine ⟨j, hj, ?_⟩
    generalize evaluate (referring ["a", "b"]) (.ofEnv (.empty (some "a::b"))) = end' at halike
    cases halike
    rfl
  · have hplain : ∀ parts : List String, parts = ["a", "b"] ∨ parts = ["b"] →
        QualifiedName.Plain parts := by
      rintro _ (rfl | rfl) <;> exact ⟨by decide, by decide⟩
    have hother : QualifiedName.Foreign ["a", "b"] ⟨["b"], "Tree"⟩ :=
      hforeign (hplain _ (.inl rfl)) _ (hplain _ (.inr rfl)) (by decide)
    exact (hnever _ hother).2 _ ⟨_, List.mem_cons_self, by decide⟩

end Declaration

end ParseForest
