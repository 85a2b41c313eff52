import ParseForest.Proofs.Declaration.Convergence

/-!
The type names that type expressions and declarations refer to. What is resolved depends on them
alone for its success: it has a result where they are all declared, and waits for a type where one
of them is not. Main statements: `TypeEnv.hingesOn_typeOf`, `Pending.hingesOn_trial`.
-/

namespace ParseForest

open Success

mutual
def TypeExpr.references : TypeExpr → List QualifiedName
  | .builtin _ => []
  | .structured _ args => TypeArgument.references args
  | .user ⟨name, parameters, _⟩ => name :: TypeExpr.allReferences parameters
  | .typeVar _ none => []
  | .typeVar _ (some bound) => bound.references
  | .symbol _ => []
termination_by structural e => e

def TypeExpr.allReferences : List TypeExpr → List QualifiedName
  | [] => []
  | e :: es => e.references ++ TypeExpr.allReferences es
termination_by structural es => es

def TypeArgument.references : List (TypeArgument TypeExpr) → List QualifiedName
  | [] => []
  | ⟨e, _⟩ :: es => e.references ++ TypeArgument.references es
termination_by structural es => es
end

def KeywordFormal.references (formals : List KeywordFormal) : List QualifiedName :=
  formals.flatMap (·.type.references)

def Variant.references (v : Variant) : List QualifiedName :=
  TypeArgument.references v.arguments ++ KeywordFormal.references v.keywords

theorem TypeExpr.allReferences_eq (es : List TypeExpr) :
    allReferences es = es.flatMap references := by
  induction es with
  | nil => rfl
  | cons e es ih => rw [allReferences, ih, List.flatMap_cons]

def TypeReference.Generic (type : TypeReference TypeExpr) : Prop :=
  ∀ e ∈ type.parameters, ∃ name bound, e = .typeVar name bound

namespace TypeEnv

variable {α β γ : Type} {env : TypeEnv}

def Declares (env : TypeEnv) (name : QualifiedName) : Prop := env.lookup? name ≠ none

theorem declares_iff {name : QualifiedName} :
    env.Declares name ↔ ∃ n, env.localName? name = some n ∧ env.entry n ≠ (none, none) := by
  unfold Declares lookup?
  cases env.localName? name with
  | none => simp
  | some n =>
    cases hd : env.dataTypes.get? n with
    | none =>
      cases hs : env.synonyms.get? n with
      | none => simp [dataType?, synonym?, entry, hd, hs]
      | some s => simp [dataType?, synonym?, entry, hd, hs]
    | some ps => simp [dataType?, entry, hd]

/-- A result is there where all the names are declared, and is waited for where one is not. -/
structure HingesOn (env : TypeEnv) (names : List QualifiedName) (x : Except Error α) : Prop where
  ok_iff : (∃ a, x = .ok a) ↔ ∀ name ∈ names, env.Declares name
  ok_or_waits : (∃ a, x = .ok a) ∨ Waits x

namespace HingesOn

variable {names names' : List QualifiedName} {x : Except Error α}

theorem of_ok {a : α} (h : x = .ok a) : HingesOn env [] x :=
  ⟨⟨fun _ => by simp, fun _ => ⟨a, h⟩⟩, .inl ⟨a, h⟩⟩

theorem of_waits {name : QualifiedName} (h : Waits x) (hmem : name ∈ names)
    (hname : ¬ env.Declares name) : HingesOn env names x where
  ok_iff := by
    obtain ⟨e, rfl, _⟩ := h
    constructor
    · rintro ⟨_, ha⟩
      cases ha
    · intro hall
      exact absurd (hall name hmem) hname
  ok_or_waits := .inr h

theorem bind {f : α → Except Error β} (hx : HingesOn env names x)
    (hf : ∀ a, x = .ok a → HingesOn env names' (f a)) :
    HingesOn env (names ++ names') (x >>= f) := by
  rcases hx.ok_or_waits with ⟨a, ha⟩ | hwaits
  · have hnames : ∀ name ∈ names, env.Declares name := hx.ok_iff.1 ⟨a, ha⟩
    obtain ⟨hiff, hout⟩ := hf a ha
    rw [bind_of_ok ha]
    refine ⟨hiff.trans ⟨fun h => List.forall_mem_append.2 ⟨hnames, h⟩, fun h => ?_⟩, hout⟩
    exact (List.forall_mem_append.1 h).2
  · have hnot : ¬ ∀ name ∈ names, env.Declares name := by
      intro h
      obtain ⟨a, ha⟩ := hx.ok_iff.2 h
      obtain ⟨e, he, _⟩ := hwaits
      cases ha.symm.trans he
    push Not at hnot
    obtain ⟨name, hmem, hname⟩ := hnot
    exact of_waits (hwaits.bind f) (List.mem_append_left _ hmem) hname

theorem map (hx : HingesOn env names x) (f : α → β) :
    HingesOn env names (x >>= fun a => pure (f a)) := by
  rw [← List.append_nil names]
  exact hx.bind fun a _ => of_ok rfl

theorem mapM {f : γ → Except Error α} {refs : γ → List QualifiedName} {l : List γ}
    (h : ∀ c ∈ l, HingesOn env (refs c) (f c)) : HingesOn env (l.flatMap refs) (l.mapM f) := by
  induction l with
  | nil => exact of_ok rfl
  | cons c l ih =>
    obtain ⟨hc, hl⟩ := List.forall_mem_cons.1 h
    rw [List.mapM_cons, List.flatMap_cons]
    exact hc.bind fun a _ => (ih hl).map fun as => a :: as

end HingesOn

mutual
theorem hingesOn_typeOf : ∀ e : TypeExpr, HingesOn env e.references (env.typeOf e)
  | .builtin b => .of_ok rfl
  | .structured kind args => (hingesOn_argumentTypes args).map _
  | .user ⟨name, parameters, _⟩ => by
    unfold typeOf TypeExpr.references
    cases hname : env.lookup? name with
    | none => exact .of_waits ⟨_, rfl, rfl⟩ List.mem_cons_self fun h => h hname
    | some declared =>
      have hfound : HingesOn env [name] (.ok declared : Except Error Ty) :=
        ⟨⟨fun _ => by simp [Declares, hname], fun _ => ⟨_, rfl⟩⟩, .inl ⟨_, rfl⟩⟩
      cases parameters with
      | nil => exact hfound
      | cons e es => exact hfound.bind fun _ _ => (hingesOn_typesOf (e :: es)).map _
  | .typeVar name none => .of_ok rfl
  | .typeVar name (some bound) => (hingesOn_typeOf bound).map _
  | .symbol s => .of_ok rfl
termination_by structural e => e

theorem hingesOn_typesOf :
    ∀ es : List TypeExpr, HingesOn env (TypeExpr.allReferences es) (env.typesOf es)
  | [] => .of_ok rfl
  | e :: es => (hingesOn_typeOf e).bind fun _ _ => (hingesOn_typesOf es).map _
termination_by structural es => es

theorem hingesOn_argumentTypes : ∀ args : List (TypeArgument TypeExpr),
    HingesOn env (TypeArgument.references args) (env.argumentTypes args)
  | [] => .of_ok rfl
  | ⟨e, _⟩ :: args => (hingesOn_typeOf e).bind fun _ _ => (hingesOn_argumentTypes args).map _
termination_by structural args => args
end

theorem hingesOn_formalsOf {type : TypeReference TypeExpr} (h : type.Generic) :
    HingesOn env (TypeExpr.allReferences type.parameters) (env.formalsOf type) := by
  rw [TypeExpr.allReferences_eq]
  refine HingesOn.mapM fun e he => ?_
  obtain ⟨name, bound, rfl⟩ := h e he
  exact hingesOn_typeOf (.typeVar name bound)

theorem generic_of_formalsOf {type : TypeReference TypeExpr} {formals : List Ty}
    (h : env.formalsOf type = .ok formals) : type.Generic := by
  intro e he
  obtain ⟨t, ht⟩ := exists_of_mapM h he
  cases e with
  | typeVar name bound => exact ⟨name, bound, rfl⟩
  | _ => cases ht

theorem hingesOn_fieldsOf (index : Nat) (args : List (TypeArgument TypeExpr)) :
    HingesOn env (TypeArgument.references args) (env.fieldsOf index args) := by
  induction args generalizing index with
  | nil => exact .of_ok rfl
  | cons arg args ih => exact (hingesOn_typeOf arg.type).bind fun _ _ => (ih (index + 1)).map _

theorem hingesOn_keywordsFor (formals : List KeywordFormal) :
    HingesOn env (KeywordFormal.references formals) (env.keywordsFor formals) :=
  HingesOn.mapM fun k _ => (hingesOn_typeOf k.type).map _

end TypeEnv

namespace Declare.Pending

def references : Pending → List QualifiedName
  | data type => TypeExpr.allReferences type.parameters
  | synonym type base => base.references ++ TypeExpr.allReferences type.parameters

theorem hingesOn_resolve {p : Pending} {name : String} (hname : p.name? = some name)
    (hgeneric : p.type.Generic) (env : TypeEnv) :
    env.HingesOn p.references (p.resolve env) := by
  cases p with
  | data type =>
    have hok : TypeEnv.declaredName type = .ok name := TypeEnv.declaredName_eq_ok.2 hname
    rw [resolve, hok]
    exact (TypeEnv.hingesOn_formalsOf hgeneric).map _
  | synonym type base =>
    have hok : TypeEnv.declaredName type = .ok name := TypeEnv.declaredName_eq_ok.2 hname
    rw [resolve, hok]
    exact (TypeEnv.hingesOn_typeOf base).bind fun _ _ =>
      (TypeEnv.hingesOn_formalsOf hgeneric).map _

theorem generic_of_resolve {env : TypeEnv} {p : Pending} {d : Definition}
    (h : p.resolve env = .ok d) : p.type.Generic := by
  cases p with
  | data type =>
    obtain ⟨_, formals, hformals, _⟩ := resolve_data_eq_ok.1 h
    exact TypeEnv.generic_of_formalsOf hformals
  | synonym type base =>
    obtain ⟨_, formals, _, hformals, _⟩ := resolve_synonym_eq_ok.1 h
    exact TypeEnv.generic_of_formalsOf hformals

theorem exists_make {env : TypeEnv} {p : Pending} {d : Definition} (h : p.resolve env = .ok d)
    (hnone : env.entry d.subject = (none, none)) : ∃ env', d.make env = .ok env' := by
  cases p with
  | data type =>
    obtain ⟨_, formals, _, rfl⟩ := resolve_data_eq_ok.1 h
    obtain ⟨hd, hs⟩ := Prod.mk.inj hnone
    exact ⟨_, map_eq_ok.2 ⟨_, TypeEnv.declareData_eq_ok.2 ⟨hs, .inr ⟨hd, rfl, rfl⟩⟩, rfl⟩⟩
  | synonym type base =>
    obtain ⟨_, formals, aliased, _, _, rfl⟩ := resolve_synonym_eq_ok.1 h
    obtain ⟨hd, hs⟩ := Prod.mk.inj hnone
    exact ⟨_, map_eq_ok.2 ⟨_, TypeEnv.declareSynonym_eq_ok.2 ⟨hd, rfl, .inr ⟨hs, rfl⟩⟩, rfl⟩⟩

theorem hingesOn_trial {p : Pending} {j : Journal} {name : String} (hname : p.name? = some name)
    (hgeneric : p.type.Generic) (hnone : j.env.entry name = (none, none)) :
    j.env.HingesOn p.references (p.trial j) := by
  rw [← List.append_nil p.references]
  refine (hingesOn_resolve hname hgeneric j.env).bind fun d hd => ?_
  have hsubject : d.subject = name := Option.some.inj ((resolve_subject hd).symm.trans hname)
  obtain ⟨env, hmade⟩ := exists_make hd (hsubject ▸ hnone)
  obtain ⟨j', hj'⟩ := Journal.exists_make hmade
  exact .of_ok hj'

end Declare.Pending

end ParseForest
