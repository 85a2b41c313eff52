import ParseForest.Declaration.Evaluation
import ParseForest.Proofs.Declaration.Growth
import ParseForest.Proofs.Declaration.Sequence

/-!
One trial of a type name that waits to be declared: its definition is resolved against what is
there, and then made. A trial that fails for want of a type leaves no trace. Main statements:
`Pending.run_declare`, `Pending.declare_of_waits`.
-/

namespace ParseForest

open Success

def TypeReference.introduced? (type : TypeReference TypeExpr) : Option String :=
  if type.name.isQualified then none else some type.name.name

theorem TypeReference.eq_name_of_introduced? {type : TypeReference TypeExpr} {name : String}
    (h : type.introduced? = some name) : type.name.name = name := by
  unfold introduced? at h
  split at h
  · cases h
  · exact Option.some.inj h

theorem TypeEnv.declaredName_eq_ok {type : TypeReference TypeExpr} {name : String} :
    declaredName type = .ok name ↔ type.introduced? = some name := by
  unfold declaredName TypeReference.introduced?
  split
  · simp
  · simp

theorem Definition.not_waits_make (d : Definition) (env : TypeEnv) : ¬ Waits (d.make env) := by
  rintro ⟨e, h, he⟩
  cases d with
  | data n ps =>
    simp only [make, TypeEnv.declareData] at h
    split at h
    · cases h
      cases he
    · split at h
      · split at h
        · cases h
        · cases h
          cases he
      · cases h
  | synonym n ps t =>
    simp only [make, TypeEnv.declareSynonym] at h
    split at h
    · cases h
      cases he
    · split at h
      · split at h
        · cases h
        · cases h
          cases he
      · cases h
  | constructor owner n fields =>
    simp only [make, TypeEnv.declareConstructor] at h
    split at h
    · cases h
      cases he
    · split at h
      · cases h
        cases he
      · split at h
        · split at h
          · cases h
          · cases h
            cases he
        · cases h
  | keywords owner ks => cases h

namespace Declare

variable {α β : Type}

theorem run_bind (x : Declare α) (f : α → Declare β) (j : Journal) :
    (x >>= f) j = match x j with
      | .ok a j' => f a j'
      | .error e j' => .error e j' := by
  simp only [bind, EStateM.bind]
  cases x j <;> rfl

theorem run_lift (x : Except Error α) (j : Journal) :
    (liftM x : Declare α) j = match x with
      | .ok a => .ok a j
      | .error e => .error e j := by
  cases x <;> rfl

theorem run_data (name : String) (ps : List Ty) (j : Journal) :
    data name ps j = match j.env.declareData name ps with
      | .ok (env, t) => .ok t { j.note (.data name ps) with env }
      | .error e => .error e (j.note (.data name ps)) := by
  have hrun : data name ps j = (liftM (j.env.declareData name ps) >>= fun r =>
      setEnv r.1 >>= fun _ => pure r.2 : Declare Ty) (j.note (.data name ps)) := rfl
  rw [hrun, run_bind, run_lift]
  cases j.env.declareData name ps <;> rfl

theorem run_synonym (name : String) (ps : List Ty) (aliased : Ty) (j : Journal) :
    synonym name ps aliased j = match j.env.declareSynonym name ps aliased with
      | .ok (env, t) => .ok t { j.note (.synonym name ps aliased) with env }
      | .error e => .error e (j.note (.synonym name ps aliased)) := by
  have hrun : synonym name ps aliased j =
      (liftM (j.env.declareSynonym name ps aliased) >>= fun r =>
        setEnv r.1 >>= fun _ => pure r.2 : Declare Ty) (j.note (.synonym name ps aliased)) := rfl
  rw [hrun, run_bind, run_lift]
  cases j.env.declareSynonym name ps aliased <;> rfl

theorem run_dataType (type : TypeReference TypeExpr) (j : Journal) :
    dataType type j = match TypeEnv.declaredName type with
      | .error e => .error e j
      | .ok name => match j.env.formalsOf type with
        | .error e => .error e j
        | .ok formals => data name formals j := by
  unfold dataType
  rw [run_bind, run_lift]
  cases TypeEnv.declaredName type with
  | error e => rfl
  | ok name =>
    have hrun : (env >>= fun env => liftM (env.formalsOf type) >>= data name : Declare Ty) j =
        (liftM (j.env.formalsOf type) >>= data name : Declare Ty) j := rfl
    exact hrun.trans (by rw [run_bind, run_lift]; cases j.env.formalsOf type <;> rfl)

namespace Pending

def type : Pending → TypeReference TypeExpr
  | data type | synonym type _ => type

def name? (p : Pending) : Option String := p.type.introduced?

def resolve (env : TypeEnv) : Pending → Except Error Definition
  | data type => do
    let name ← TypeEnv.declaredName type
    return .data name (← env.formalsOf type)
  | synonym type base => do
    let base ← env.typeOf base
    let name ← TypeEnv.declaredName type
    return .synonym name (← env.formalsOf type) base

def trial (j : Journal) (p : Pending) : Except Error Journal := do
  j.make (← p.resolve j.env)

theorem resolve_subject {env : TypeEnv} {p : Pending} {d : Definition}
    (h : p.resolve env = .ok d) : p.name? = some d.subject := by
  cases p with
  | data type =>
    obtain ⟨name, hname, h⟩ := bind_eq_ok.1 h
    obtain ⟨formals, _, h⟩ := bind_eq_ok.1 h
    cases pure_eq_ok.1 h
    exact TypeEnv.declaredName_eq_ok.1 hname
  | synonym type base =>
    obtain ⟨t, _, h⟩ := bind_eq_ok.1 h
    obtain ⟨name, hname, h⟩ := bind_eq_ok.1 h
    obtain ⟨formals, _, h⟩ := bind_eq_ok.1 h
    cases pure_eq_ok.1 h
    exact TypeEnv.declaredName_eq_ok.1 hname

theorem resolve_data_eq_ok {env : TypeEnv} {type : TypeReference TypeExpr} {d : Definition} :
    (data type).resolve env = .ok d ↔ type.introduced? = some type.name.name ∧
      ∃ formals, env.formalsOf type = .ok formals ∧ .data type.name.name formals = d := by
  simp only [resolve, bind_eq_ok, pure_eq_ok, TypeEnv.declaredName_eq_ok]
  constructor
  · rintro ⟨name, hname, formals, hformals, rfl⟩
    rw [TypeReference.eq_name_of_introduced? hname]
    exact ⟨hname, formals, hformals, rfl⟩
  · rintro ⟨hname, formals, hformals, rfl⟩
    exact ⟨_, hname, formals, hformals, rfl⟩

theorem resolve_synonym_eq_ok {env : TypeEnv} {type : TypeReference TypeExpr} {base : TypeExpr}
    {d : Definition} :
    (synonym type base).resolve env = .ok d ↔ type.introduced? = some type.name.name ∧
      ∃ formals aliased, env.formalsOf type = .ok formals ∧ env.typeOf base = .ok aliased ∧
        .synonym type.name.name formals aliased = d := by
  simp only [resolve, bind_eq_ok, pure_eq_ok, TypeEnv.declaredName_eq_ok]
  constructor
  · rintro ⟨aliased, haliased, name, hname, formals, hformals, rfl⟩
    rw [TypeReference.eq_name_of_introduced? hname]
    exact ⟨hname, formals, aliased, hformals, haliased, rfl⟩
  · rintro ⟨hname, formals, aliased, hformals, haliased, rfl⟩
    exact ⟨aliased, haliased, _, hname, formals, hformals, rfl⟩

theorem run_declare (p : Pending) (j : Journal) :
    p.declare j = match p.resolve j.env with
      | .error e => .error e j
      | .ok d => match j.make d with
        | .error e => .error e (j.note d)
        | .ok j' => .ok () j' := by
  cases p with
  | data type =>
    have hrun : (data type).declare j = (dataType type >>= fun _ => pure ()) j := rfl
    rw [hrun, run_bind, run_dataType, resolve]
    cases TypeEnv.declaredName type with
    | error e => rfl
    | ok name =>
      cases j.env.formalsOf type with
      | error e => rfl
      | ok formals =>
        simp only [run_data, Journal.make]
        show _ = match (fun env => { j.note (.data name formals) with env }) <$>
          Prod.fst <$> j.env.declareData name formals with
          | .error e => EStateM.Result.error e (j.note (.data name formals))
          | .ok j' => EStateM.Result.ok () j'
        cases j.env.declareData name formals <;> rfl
  | synonym type base =>
    have hrun : (synonym type base).declare j = (liftM (j.env.typeOf base) >>= fun base =>
        liftM (TypeEnv.declaredName type) >>= fun name =>
          env >>= fun env => liftM (env.formalsOf type) >>= fun formals =>
            Declare.synonym name formals base >>= fun _ => pure () : Declare Unit) j := rfl
    rw [hrun, run_bind, run_lift, resolve]
    cases j.env.typeOf base with
    | error e => rfl
    | ok aliased =>
      simp only []
      rw [run_bind, run_lift]
      cases TypeEnv.declaredName type with
      | error e => rfl
      | ok name =>
        have hformals : (env >>= fun env => liftM (env.formalsOf type) >>= fun formals =>
            Declare.synonym name formals aliased >>= fun _ => pure () : Declare Unit) j =
          (liftM (j.env.formalsOf type) >>= fun formals =>
            Declare.synonym name formals aliased >>= fun _ => pure () : Declare Unit) j := rfl
        simp only [hformals]
        rw [run_bind, run_lift]
        cases j.env.formalsOf type with
        | error e => rfl
        | ok formals =>
          simp only [run_bind, run_synonym, Journal.make]
          show _ = match (fun env => { j.note (.synonym name formals aliased) with env }) <$>
            Prod.fst <$> j.env.declareSynonym name formals aliased with
            | .error e => EStateM.Result.error e (j.note (.synonym name formals aliased))
            | .ok j' => EStateM.Result.ok () j'
          cases j.env.declareSynonym name formals aliased <;> rfl

variable {p : Pending} {j j' : Journal}

theorem trial_eq_ok :
    p.trial j = .ok j' ↔ ∃ d, p.resolve j.env = .ok d ∧ j.make d = .ok j' :=
  bind_eq_ok

theorem declare_of_ok (h : p.trial j = .ok j') : p.declare j = .ok () j' := by
  obtain ⟨d, hd, hmade⟩ := trial_eq_ok.1 h
  simp only [run_declare, hd, hmade]

theorem declare_of_waits {e : Error} (h : p.trial j = .error e) (he : e.isUndeclaredType = true) :
    p.declare j = .error e j := by
  cases hd : p.resolve j.env with
  | error e' =>
    rw [trial, hd] at h
    cases h
    simp only [run_declare, hd]
  | ok d =>
    rw [trial, hd] at h
    have hmade : d.make j.env = .error e := Journal.make_eq_error.1 h
    exact absurd ⟨e, hmade, he⟩ (d.not_waits_make j.env)

theorem declare_of_error {e : Error} (h : p.trial j = .error e) :
    ∃ j', p.declare j = .error e j' ∧ j'.env = j.env := by
  cases hd : p.resolve j.env with
  | error e' =>
    rw [trial, hd] at h
    cases h
    exact ⟨j, by simp only [run_declare, hd], rfl⟩
  | ok d =>
    rw [trial, hd] at h
    exact ⟨j.note d, by simp only [run_declare, hd, show j.make d = .error e from h], rfl⟩

theorem attempt_of_ok (h : p.trial j = .ok j') : attempt p.declare j = .ok (.ok ()) j' := by
  simp only [attempt, declare_of_ok h]

theorem attempt_of_waits {e : Error} (h : p.trial j = .error e) (he : e.isUndeclaredType = true) :
    attempt p.declare j = .ok (.error e) j := by
  simp only [attempt, declare_of_waits h he, he, if_true]

theorem attempt_of_refused {e : Error} (h : p.trial j = .error e)
    (he : e.isUndeclaredType = false) :
    ∃ j', attempt p.declare j = .error e j' ∧ j'.env = j.env := by
  obtain ⟨j', hj', henv⟩ := declare_of_error h
  exact ⟨j', by simp [attempt, hj', he], henv⟩

end Pending

end Declare

end ParseForest
