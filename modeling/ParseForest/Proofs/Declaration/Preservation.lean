import ParseForest.Proofs.Declaration.Residue
import ParseForest.Proofs.Types.Coherence

/-!
Evaluation keeps types coherent, however often it is run and wherever it stops. A step either makes
definitions whose types are resolved in coherent types, or fails and leaves what was made before.
Main statements: `safe_evaluate`, `coherent_typesAfter`.
-/

namespace ParseForest

open Success TypeEnv

namespace Declare

variable {α β γ : Type} {P R : TypeEnv → Prop} {Q : α → TypeEnv → Prop} {name : String}
  {ps : List Ty}

/-- From types with `P` the step leaves coherent types whatever comes of it, and where it succeeds
`Q` holds of its result and the types. -/
def Safe (P : TypeEnv → Prop) (x : Declare α) (Q : α → TypeEnv → Prop) : Prop :=
  ∀ j, P j.env → match x j with
    | .ok a j' => Q a j'.env
    | .error _ j' => j'.env.Coherent

theorem safe_pure {a : α} (h : ∀ env, P env → Q a env) : Safe P (pure a) Q :=
  fun j hj => h j.env hj

theorem safe_throw {e : Error} (h : ∀ env, P env → env.Coherent) : Safe P (throw e) Q :=
  fun j hj => h j.env hj

theorem Safe.mono {x : Declare α} {Q' : α → TypeEnv → Prop} (hx : Safe P x Q)
    (h : ∀ a env, Q a env → Q' a env) : Safe P x Q' := by
  intro j hj
  have hxj := hx j hj
  cases hrun : x j with
  | error e j' =>
    rw [hrun] at hxj
    exact hxj
  | ok a j' =>
    rw [hrun] at hxj
    exact h a j'.env hxj

theorem Safe.bind {x : Declare α} {f : α → Declare β} {T : β → TypeEnv → Prop} (hx : Safe P x Q)
    (hf : ∀ a, Safe (Q a) (f a) T) : Safe P (x >>= f) T := by
  intro j hj
  have hxj := hx j hj
  rw [run_bind]
  cases hrun : x j with
  | error e j' =>
    rw [hrun] at hxj
    exact hxj
  | ok a j' =>
    rw [hrun] at hxj
    exact hf a j' hxj

theorem safe_read {g : TypeEnv → Except Error γ} {f : γ → Declare α}
    (hP : ∀ env, P env → env.Coherent)
    (hf : ∀ c, Safe (fun env => P env ∧ g env = .ok c) (f c) Q) :
    Safe P (env >>= fun env => liftM (g env) >>= f) Q := by
  intro j hj
  show match (liftM (g j.env) >>= f) j with
    | .ok a j' => Q a j'.env
    | .error _ j' => j'.env.Coherent
  rw [run_bind, run_lift]
  cases hc : g j.env with
  | error e => exact hP j.env hj
  | ok c => exact hf c j ⟨hj, hc⟩

theorem safe_forM {f : β → Declare PUnit} {bs : List β}
    (h : ∀ b ∈ bs, Safe P (f b) fun _ => P) : Safe P (bs.forM f) fun _ => P := by
  induction bs with
  | nil => exact safe_pure fun _ hj => hj
  | cons b bs ih =>
    obtain ⟨hb, hbs⟩ := List.forall_mem_cons.1 h
    exact hb.bind fun _ => ih hbs

theorem safe_constructor {owner : Ty} {fields : List Field}
    (hP : ∀ env, P env → env.Coherent ∧ (Definition.constructor owner name fields).Sound env)
    (hR : ∀ env env', P env → env'.Coherent →
      (Definition.constructor owner name fields).make env = .ok env' → R env') :
    Safe P (constructor owner name fields) fun _ => R := by
  intro j hj
  obtain ⟨hcoherent, hsound⟩ := hP j.env hj
  rw [run_constructor]
  cases hmade : j.make (.constructor owner name fields) with
  | error e => exact hcoherent
  | ok j' =>
    have hmade := (Journal.make_eq_ok.1 hmade).1
    exact hR j.env j'.env hj (hcoherent.make hsound hmade) hmade

theorem safe_keywords {owner : KeywordOwner} {ks : List (String × Keyword)}
    (hP : ∀ env, P env → env.Coherent ∧ (Definition.keywords owner ks).Sound env)
    (hR : ∀ env env', P env → env'.Coherent →
      (Definition.keywords owner ks).make env = .ok env' → R env') :
    Safe P (keywords owner ks) fun _ => R := by
  intro j hj
  obtain ⟨hcoherent, hsound⟩ := hP j.env hj
  exact hR j.env _ hj (hcoherent.make hsound rfl) rfl

structure Has (name : String) (env : TypeEnv) : Prop where
  coherent : env.Coherent
  declared : name ∈ env.dataTypes.keys

theorem Has.after {d : Definition} {env env' : TypeEnv} (h : Has name env)
    (hcoherent : env'.Coherent) (hmade : d.make env = .ok env') : Has name env' :=
  ⟨hcoherent, (Definition.make_within hmade).mem_dataTypes h.declared⟩

theorem safe_dataType (type : TypeReference TypeExpr) :
    Safe TypeEnv.Coherent (dataType type) fun t env =>
      ∃ name ps, declaredName type = .ok name ∧ t = .data name ps ∧ Has name env := by
  intro j hj
  rw [run_dataType]
  cases declaredName type with
  | error e => exact hj
  | ok name =>
    cases hformals : j.env.formalsOf type with
    | error e => exact hj
    | ok formals =>
      simp only [run_data]
      cases hdeclared : j.env.declareData name formals with
      | error e => exact hj
      | ok r =>
        obtain ⟨env, t⟩ := r
        have hmade : (Definition.data name formals).make j.env = .ok env :=
          map_eq_ok.2 ⟨_, hdeclared, rfl⟩
        obtain ⟨ps, hps⟩ := Definition.make_data_entry hmade
        have ht : ∃ ps, t = .data name ps := by
          obtain ⟨_, ⟨qs, _, _, _, rfl⟩ | ⟨_, rfl, _⟩⟩ := declareData_eq_ok.1 hdeclared
          · exact ⟨qs, rfl⟩
          · exact ⟨formals, rfl⟩
        obtain ⟨qs, rfl⟩ := ht
        refine ⟨name, qs, rfl, rfl, ?_, Table.mem_keys_iff.2 ⟨ps, congrArg Prod.fst hps⟩⟩
        have hsound : (Definition.data name formals).Sound j.env :=
          ⟨formalsOf_closed hj hformals, trivial⟩
        exact hj.make hsound hmade

theorem safe_keywordsFor (owner : KeywordOwner) (formals : List KeywordFormal)
    (hP : ∀ env, P env → Has owner.dataName env ∧ env.Owns owner) :
    Safe P (env >>= fun env => liftM (env.keywordsFor formals) >>= keywords owner)
      fun _ => Has owner.dataName := by
  refine safe_read (fun env henv => (hP env henv).1.coherent) fun ks => ?_
  refine safe_keywords (fun env henv => ?_) fun env env' henv hcoherent hmade => ?_
  · obtain ⟨hhas, howns⟩ := hP env henv.1
    have hclosed := keywordsFor_closed hhas.coherent henv.2
    exact ⟨hhas.coherent, List.forall_mem_map.2 hclosed, howns⟩
  · exact (hP env henv.1).1.after hcoherent hmade

theorem safe_commonKeywords (formals : List KeywordFormal) :
    Safe (Has name) (commonKeywords (.data name ps) formals) fun _ => Has name := by
  cases formals with
  | nil => exact safe_pure fun _ h => h
  | cons k ks =>
    exact safe_keywordsFor (.data name) (k :: ks) fun env h => ⟨h, h.declared⟩

theorem safe_declareVariant (v : Variant) :
    Safe (Has name) (declareVariant (.data name ps) name v) fun _ => Has name := by
  refine safe_read (fun env h => h.coherent) fun fields => ?_
  refine Safe.bind (Q := fun _ env => Has name env ∧ env.Owns (.constructor name v.name)) ?_ ?_
  · refine safe_constructor (fun env h => ?_) fun env env' h hcoherent hmade => ?_
    · have hclosed := fieldsOf_closed h.1.coherent h.2
      refine ⟨h.1.coherent, List.forall_mem_map.2 hclosed, fun data hdata => ?_⟩
      cases hdata
      exact h.1.declared
    · have hhas := h.1.after hcoherent hmade
      refine ⟨hhas, hhas.declared, Table.mem_keys_iff.2 ⟨fields, ?_⟩⟩
      exact (Definition.make_constructors hmade).2 (.inr ⟨_, rfl, rfl⟩)
  · intro _
    cases v.keywords with
    | nil => exact safe_pure fun _ h => h.1
    | cons k ks =>
      exact safe_keywordsFor (.constructor name v.name) (k :: ks) fun _ h => h

theorem safe_variants (seen : List String) (vs : List Variant) :
    Safe (Has name) (variants (.data name ps) name seen vs) fun _ => Has name := by
  induction vs generalizing seen with
  | nil => exact safe_pure fun _ h => h
  | cons v vs ih =>
    by_cases hseen : v.name ∈ seen
    · simp only [variants, if_pos hseen]
      exact safe_throw fun _ h => h.coherent
    · rw [variants_cons hseen]
      exact (safe_declareVariant v).bind fun _ => ih (v.name :: seen)

theorem sound_of_resolve {p : Pending} {env : TypeEnv} {d : Definition} (h : env.Coherent)
    (hd : p.resolve env = .ok d) : d.Sound env := by
  cases p with
  | data type =>
    obtain ⟨_, formals, hformals, rfl⟩ := Pending.resolve_data_eq_ok.1 hd
    exact ⟨formalsOf_closed h hformals, trivial⟩
  | synonym type base =>
    obtain ⟨_, formals, aliased, hformals, hbase, rfl⟩ := Pending.resolve_synonym_eq_ok.1 hd
    refine ⟨List.forall_mem_cons.2 ⟨typeOf_closed h base aliased hbase, ?_⟩, trivial⟩
    exact formalsOf_closed h hformals

theorem coherent_of_declareAll {qs : List Pending} {j j' : Journal} (h : j.env.Coherent)
    (hqs : declareAll j qs = .ok j') : j'.env.Coherent := by
  induction qs generalizing j with
  | nil =>
    cases hqs
    exact h
  | cons q qs ih =>
    obtain ⟨next, hq, hqs⟩ := declareAll_cons.1 hqs
    obtain ⟨d, hd, hmade, _⟩ := trial_inv hq
    exact ih (h.make (sound_of_resolve h hd) hmade) hqs

theorem safe_settle (ws : List Pending) :
    Safe TypeEnv.Coherent (settle ws) fun _ => TypeEnv.Coherent := by
  intro j hj
  rcases settle_cases ws j with ⟨j', hrun, qs, _, hqs⟩ |
    ⟨e, j', hrun, qs, _, middle, _, hqs, _, henv⟩
  · rw [hrun]
    exact coherent_of_declareAll hj hqs
  · rw [hrun]
    show j'.env.Coherent
    rw [henv]
    exact coherent_of_declareAll hj hqs

end Declare

namespace Declaration

open Declare

theorem safe_evaluateAbstract (d : Declaration) :
    Safe TypeEnv.Coherent d.evaluateAbstract fun _ => TypeEnv.Coherent := by
  cases d with
  | abstractData type formals =>
    refine (safe_dataType type).bind fun t => ?_
    rintro j ⟨name, ps, _, rfl, hhas⟩
    exact ((safe_commonKeywords formals).mono fun _ _ h => h.coherent) j hhas
  | _ => exact safe_pure fun _ h => h

theorem safe_evaluateData (d : Declaration) :
    Safe TypeEnv.Coherent d.evaluateData fun _ => TypeEnv.Coherent := by
  cases d with
  | data type formals vs =>
    refine (safe_dataType type).bind fun t => ?_
    rintro j ⟨name, ps, hname, rfl, hhas⟩
    simp only [hname]
    have hfilled : Safe (Has name) (do
        commonKeywords (.data name ps) formals
        Declare.variants (.data name ps) name [] vs) fun _ => Has name :=
      (safe_commonKeywords formals).bind fun _ => safe_variants [] vs
    exact (hfilled.mono fun _ _ h => h.coherent) j hhas
  | _ => exact safe_pure fun _ h => h

theorem safe_evaluate (ds : List Declaration) :
    Safe TypeEnv.Coherent (evaluate ds) fun _ => TypeEnv.Coherent := by
  refine (safe_settle _).bind fun _ => ?_
  refine (safe_forM fun d _ => safe_evaluateAbstract d).bind fun _ => ?_
  exact safe_forM fun d _ => safe_evaluateData d

def typesAfter (moduleName : Option String) (runs : List (List Declaration)) : TypeEnv :=
  runs.foldl (fun env ds => (residue (evaluate ds (.ofEnv env))).env) (.empty moduleName)

theorem coherent_residue {env : TypeEnv} (h : env.Coherent) (ds : List Declaration) :
    (residue (evaluate ds (.ofEnv env))).env.Coherent := by
  have hsafe := safe_evaluate ds (.ofEnv env) h
  cases hrun : evaluate ds (.ofEnv env) with
  | ok _ j | error _ j =>
    rw [hrun] at hsafe
    exact hsafe

/-- However often and with whatever success declarations are evaluated, the types stay coherent. -/
theorem coherent_typesAfter (moduleName : Option String) (runs : List (List Declaration)) :
    (typesAfter moduleName runs).Coherent := by
  have hfrom : ∀ env : TypeEnv, env.Coherent →
      (runs.foldl (fun env ds => (residue (evaluate ds (.ofEnv env))).env) env).Coherent := by
    induction runs with
    | nil => exact fun env h => h
    | cons ds runs ih => exact fun env h => ih _ (coherent_residue h ds)
  exact hfrom _ (coherent_empty moduleName)

end Declaration

end ParseForest
