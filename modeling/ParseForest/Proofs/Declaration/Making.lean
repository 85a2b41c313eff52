import ParseForest.Proofs.Success
import ParseForest.Types.Journal

/-!
Making a definition. It is about one type name: what it does depends on what the environment holds
about that name, and it leaves everything about other names alone. Main statements:
`Definition.make_frame`, `Definition.make_local`.
-/

namespace ParseForest

open Success

def KeywordOwner.dataName : KeywordOwner → String
  | data name | constructor name _ => name

namespace TypeEnv

def entry (env : TypeEnv) (name : String) : Option (List Ty) × Option Synonym :=
  (env.dataTypes.get? name, env.synonyms.get? name)

structure AgreeAt (name : String) (env env' : TypeEnv) : Prop where
  entry : env.entry name = env'.entry name
  constructors : ∀ c, env.constructors.get? (name, c) = env'.constructors.get? (name, c)
  keywords : ∀ o : KeywordOwner, o.dataName = name → env.keywords.get? o = env'.keywords.get? o

/-- Two environments that hold the same under the same keys, in whatever order. -/
structure Alike (env env' : TypeEnv) : Prop where
  moduleName : env.moduleName = env'.moduleName
  dataTypes : ∀ name, env.dataTypes.get? name = env'.dataTypes.get? name
  synonyms : ∀ name, env.synonyms.get? name = env'.synonyms.get? name
  constructors : ∀ c, env.constructors.get? c = env'.constructors.get? c
  keywords : ∀ owner, env.keywords.get? owner = env'.keywords.get? owner

variable {env env' env'' : TypeEnv} {name : String}

theorem AgreeAt.refl (name : String) (env : TypeEnv) : AgreeAt name env env :=
  ⟨rfl, fun _ => rfl, fun _ _ => rfl⟩

theorem AgreeAt.symm (h : AgreeAt name env env') : AgreeAt name env' env :=
  ⟨h.entry.symm, fun c => (h.constructors c).symm, fun o ho => (h.keywords o ho).symm⟩

theorem AgreeAt.trans (h : AgreeAt name env env') (h' : AgreeAt name env' env'') :
    AgreeAt name env env'' :=
  ⟨h.entry.trans h'.entry, fun c => (h.constructors c).trans (h'.constructors c),
    fun o ho => (h.keywords o ho).trans (h'.keywords o ho)⟩

theorem alike_of_agreeAt (hm : env.moduleName = env'.moduleName)
    (h : ∀ name, AgreeAt name env env') : env.Alike env' where
  moduleName := hm
  dataTypes name := congrArg Prod.fst (h name).entry
  synonyms name := congrArg Prod.snd (h name).entry
  constructors c := (h c.1).constructors c.2
  keywords owner := (h owner.dataName).keywords owner rfl

theorem Alike.agreeAt (h : env.Alike env') (name : String) : AgreeAt name env env' :=
  ⟨Prod.ext (h.dataTypes name) (h.synonyms name), fun c => h.constructors (name, c),
    fun o _ => h.keywords o⟩

end TypeEnv

namespace Definition

def subject : Definition → String
  | data name _ | synonym name _ _ => name
  | constructor owner _ _ => owner.declaredName?.getD ""
  | keywords owner _ => owner.dataName

def make (env : TypeEnv) : Definition → Except Error TypeEnv
  | data name parameters => Prod.fst <$> env.declareData name parameters
  | synonym name parameters aliased => Prod.fst <$> env.declareSynonym name parameters aliased
  | constructor owner name fields => env.declareConstructor owner name fields
  | keywords owner parameters => .ok (env.declareKeywords owner parameters)

end Definition

namespace TypeEnv

variable {env env' : TypeEnv} {name : String} {t : Ty}

theorem declareData_eq_ok {parameters : List Ty} :
    env.declareData name parameters = .ok (env', t) ↔ env.synonyms.get? name = none ∧
      ((∃ ps, env.dataTypes.get? name = some ps ∧ ps.length = parameters.length ∧ env = env' ∧
          .data name ps = t) ∨
        env.dataTypes.get? name = none ∧ .data name parameters = t ∧
          { env with dataTypes := env.dataTypes.insert name parameters } = env') := by
  unfold declareData Table.contains
  cases env.synonyms.get? name with
  | some s => simp
  | none =>
    cases hd : env.dataTypes.get? name with
    | some ps =>
      by_cases hl : ps.length = parameters.length
      · simp [hl]
      · simp [hl]
    | none =>
      simp [and_comm]

theorem declareSynonym_eq_ok {parameters : List Ty} {aliased : Ty} :
    env.declareSynonym name parameters aliased = .ok (env', t) ↔
      env.dataTypes.get? name = none ∧ .synonym name parameters aliased = t ∧
      ((env.synonyms.get? name = some ⟨parameters, aliased⟩ ∧ env = env') ∨
        env.synonyms.get? name = none ∧
          { env with synonyms := env.synonyms.insert name ⟨parameters, aliased⟩ } = env') := by
  unfold declareSynonym Table.contains
  cases env.dataTypes.get? name with
  | some ps => simp
  | none =>
    cases hs : env.synonyms.get? name with
    | some s =>
      by_cases h : s = ⟨parameters, aliased⟩
      · simp [h, and_comm]
      · simp [h]
    | none =>
      simp [and_comm]

theorem declareConstructor_eq_ok {owner : Ty} {fields : List Field} :
    env.declareConstructor owner name fields = .ok env' ↔ ∃ data,
      owner.declaredName? = some data ∧ repeatedLabel? [] fields = none ∧
      ((env.constructors.get? (data, name) = some fields ∧ env = env') ∨
        env.constructors.get? (data, name) = none ∧
          { env with constructors := env.constructors.insert (data, name) fields } = env') := by
  unfold declareConstructor
  cases owner.declaredName? with
  | none => simp
  | some data =>
    cases repeatedLabel? [] fields with
    | some label => simp
    | none =>
      cases hc : env.constructors.get? (data, name) with
      | some existing =>
        by_cases h : existing = fields
        · simp [h, hc]
        · simp [h, hc]
      | none => simp [hc]

namespace AgreeAt

variable {env₁ env₂ env₁' : TypeEnv}

theorem dataTypes (h : AgreeAt name env₁ env₂) :
    env₁.dataTypes.get? name = env₂.dataTypes.get? name :=
  congrArg Prod.fst h.entry

theorem synonyms (h : AgreeAt name env₁ env₂) :
    env₁.synonyms.get? name = env₂.synonyms.get? name :=
  congrArg Prod.snd h.entry

theorem declareData {parameters : List Ty} (h : AgreeAt name env₁ env₂)
    (h₁ : env₁.declareData name parameters = .ok (env₁', t)) :
    ∃ env₂', env₂.declareData name parameters = .ok (env₂', t) ∧ AgreeAt name env₁' env₂' := by
  have hcases := declareData_eq_ok.1 h₁
  rw [h.dataTypes, h.synonyms] at hcases
  obtain ⟨hs, ⟨ps, hd, hl, rfl, ht⟩ | ⟨hd, ht, rfl⟩⟩ := hcases
  · exact ⟨env₂, declareData_eq_ok.2 ⟨hs, .inl ⟨ps, hd, hl, rfl, ht⟩⟩, h⟩
  · refine ⟨_, declareData_eq_ok.2 ⟨hs, .inr ⟨hd, ht, rfl⟩⟩, ?_, h.constructors, h.keywords⟩
    simp only [TypeEnv.entry, Table.get?_insert, h.synonyms, if_true]

theorem declareSynonym {parameters : List Ty} {aliased : Ty} (h : AgreeAt name env₁ env₂)
    (h₁ : env₁.declareSynonym name parameters aliased = .ok (env₁', t)) :
    ∃ env₂', env₂.declareSynonym name parameters aliased = .ok (env₂', t) ∧
      AgreeAt name env₁' env₂' := by
  have hcases := declareSynonym_eq_ok.1 h₁
  rw [h.dataTypes, h.synonyms] at hcases
  obtain ⟨hd, ht, ⟨hs, rfl⟩ | ⟨hs, rfl⟩⟩ := hcases
  · exact ⟨env₂, declareSynonym_eq_ok.2 ⟨hd, ht, .inl ⟨hs, rfl⟩⟩, h⟩
  · refine ⟨_, declareSynonym_eq_ok.2 ⟨hd, ht, .inr ⟨hs, rfl⟩⟩, ?_, h.constructors, h.keywords⟩
    simp only [TypeEnv.entry, Table.get?_insert, h.dataTypes, if_true]

theorem declareConstructor {owner : Ty} {data : String} {fields : List Field}
    (h : AgreeAt data env₁ env₂) (ho : owner.declaredName? = some data)
    (h₁ : env₁.declareConstructor owner name fields = .ok env₁') :
    ∃ env₂', env₂.declareConstructor owner name fields = .ok env₂' ∧
      AgreeAt data env₁' env₂' := by
  obtain ⟨_, ho', hr, hcases⟩ := declareConstructor_eq_ok.1 h₁
  cases ho.symm.trans ho'
  rw [h.constructors name] at hcases
  obtain ⟨hc, rfl⟩ | ⟨hc, rfl⟩ := hcases
  · exact ⟨env₂, declareConstructor_eq_ok.2 ⟨data, ho, hr, .inl ⟨hc, rfl⟩⟩, h⟩
  · refine ⟨_, declareConstructor_eq_ok.2 ⟨data, ho, hr, .inr ⟨hc, rfl⟩⟩, h.entry, ?_,
      h.keywords⟩
    intro c
    simp only [Table.get?_insert, h.constructors c]

theorem declareKeywords {owner : KeywordOwner} (h : AgreeAt owner.dataName env₁ env₂)
    (parameters : List (String × Keyword)) :
    AgreeAt owner.dataName (env₁.declareKeywords owner parameters)
      (env₂.declareKeywords owner parameters) := by
  refine ⟨h.entry, h.constructors, fun o ho => ?_⟩
  simp only [TypeEnv.declareKeywords, Table.get?_insert, h.keywords o ho, h.keywords owner rfl]

end AgreeAt

end TypeEnv

namespace Definition

variable {env env' env₁ env₂ : TypeEnv} {d : Definition} {name : String}

theorem make_cases (h : d.make env = .ok env') :
    env = env' ∨
    (∃ n ps, d = .data n ps ∧ env.entry n = (none, none) ∧
      { env with dataTypes := env.dataTypes.insert n ps } = env') ∨
    (∃ n ps t, d = .synonym n ps t ∧ env.entry n = (none, none) ∧
      { env with synonyms := env.synonyms.insert n ⟨ps, t⟩ } = env') ∨
    (∃ key fields, d.subject = key.1 ∧ env.constructors.get? key = none ∧
      { env with constructors := env.constructors.insert key fields } = env') ∨
    ∃ owner table, d.subject = owner.dataName ∧
      { env with keywords := env.keywords.insert owner table } = env' := by
  cases d with
  | data n ps =>
    obtain ⟨⟨_, t⟩, hdeclared, rfl⟩ := map_eq_ok.1 h
    obtain ⟨hs, ⟨_, _, _, rfl, _⟩ | ⟨hd, _, rfl⟩⟩ := TypeEnv.declareData_eq_ok.1 hdeclared
    · exact .inl rfl
    · exact .inr (.inl ⟨n, ps, rfl, by rw [TypeEnv.entry, hd, hs], rfl⟩)
  | synonym n ps t =>
    obtain ⟨⟨_, t⟩, hdeclared, rfl⟩ := map_eq_ok.1 h
    obtain ⟨hd, _, ⟨_, rfl⟩ | ⟨hs, rfl⟩⟩ := TypeEnv.declareSynonym_eq_ok.1 hdeclared
    · exact .inl rfl
    · exact .inr (.inr (.inl ⟨n, ps, _, rfl, by rw [TypeEnv.entry, hd, hs], rfl⟩))
  | constructor owner n fields =>
    obtain ⟨data, ho, _, ⟨_, rfl⟩ | ⟨hc, rfl⟩⟩ := TypeEnv.declareConstructor_eq_ok.1 h
    · exact .inl rfl
    · exact .inr (.inr (.inr (.inl ⟨(data, n), fields, by rw [subject, ho]; rfl, hc, rfl⟩)))
  | keywords owner ks =>
    cases h
    exact .inr (.inr (.inr (.inr ⟨owner, _, rfl, rfl⟩)))

theorem make_data_entry {parameters : List Ty} (h : (data name parameters).make env = .ok env') :
    ∃ ps, env'.entry name = (some ps, none) := by
  obtain ⟨⟨_, t⟩, hdeclared, rfl⟩ := map_eq_ok.1 h
  obtain ⟨hs, ⟨ps, hd, _, rfl, _⟩ | ⟨_, _, rfl⟩⟩ := TypeEnv.declareData_eq_ok.1 hdeclared
  · exact ⟨ps, by rw [TypeEnv.entry, hd, hs]⟩
  · refine ⟨parameters, ?_⟩
    simp only [TypeEnv.entry, Table.get?_insert, if_true, hs]

theorem make_data_new {parameters : List Ty} (h : (data name parameters).make env = .ok env')
    (hnone : env.entry name = (none, none)) : env'.entry name = (some parameters, none) := by
  obtain ⟨⟨_, t⟩, hdeclared, rfl⟩ := map_eq_ok.1 h
  obtain ⟨hs, ⟨ps, hd, _⟩ | ⟨_, _, rfl⟩⟩ := TypeEnv.declareData_eq_ok.1 hdeclared
  · cases hd.symm.trans (congrArg Prod.fst hnone)
  · simp only [TypeEnv.entry, Table.get?_insert, if_true, hs]

theorem make_frame (h : d.make env = .ok env') (hn : d.subject ≠ name) :
    env.AgreeAt name env' := by
  obtain rfl | ⟨n, ps, rfl, _, rfl⟩ | ⟨n, ps, t, rfl, _, rfl⟩ | ⟨key, fields, hk, _, rfl⟩ |
    ⟨owner, table, ho, rfl⟩ := make_cases h
  · exact .refl name env
  · refine ⟨?_, fun _ => rfl, fun _ _ => rfl⟩
    have hne : n ≠ name := hn
    simp only [TypeEnv.entry, Table.get?_insert, if_neg hne]
  · refine ⟨?_, fun _ => rfl, fun _ _ => rfl⟩
    have hne : n ≠ name := hn
    simp only [TypeEnv.entry, Table.get?_insert, if_neg hne]
  · refine ⟨rfl, fun c => ?_, fun _ _ => rfl⟩
    have hne : key ≠ (name, c) := by
      rintro rfl
      exact hn hk
    rw [Table.get?_insert, if_neg hne]
  · refine ⟨rfl, fun _ => rfl, fun o hname => ?_⟩
    have hne : owner ≠ o := by
      rintro rfl
      exact hn (ho.trans hname)
    rw [Table.get?_insert, if_neg hne]

theorem make_moduleName (h : d.make env = .ok env') : env'.moduleName = env.moduleName := by
  obtain rfl | ⟨n, ps, rfl, _, rfl⟩ | ⟨n, ps, t, rfl, _, rfl⟩ | ⟨key, fields, hk, _, rfl⟩ |
    ⟨owner, table, ho, rfl⟩ := make_cases h <;> rfl

theorem make_local (h : env₁.AgreeAt d.subject env₂) (h₁ : d.make env₁ = .ok env₁') :
    ∃ env₂', d.make env₂ = .ok env₂' ∧ env₁'.AgreeAt d.subject env₂' := by
  cases d with
  | data n ps =>
    obtain ⟨⟨_, t⟩, hdeclared, rfl⟩ := map_eq_ok.1 h₁
    obtain ⟨env₂', h₂, hagree⟩ := h.declareData hdeclared
    exact ⟨env₂', map_eq_ok.2 ⟨_, h₂, rfl⟩, hagree⟩
  | synonym n ps t =>
    obtain ⟨⟨_, _⟩, hdeclared, rfl⟩ := map_eq_ok.1 h₁
    obtain ⟨env₂', h₂, hagree⟩ := h.declareSynonym hdeclared
    exact ⟨env₂', map_eq_ok.2 ⟨_, h₂, rfl⟩, hagree⟩
  | constructor owner n fields =>
    obtain ⟨data, ho, _⟩ := TypeEnv.declareConstructor_eq_ok.1 h₁
    have hsubject : (Definition.constructor owner n fields).subject = data := by
      rw [subject, ho]
      rfl
    rw [hsubject] at h ⊢
    exact h.declareConstructor ho h₁
  | keywords owner ks =>
    cases h₁
    exact ⟨_, rfl, h.declareKeywords ks⟩

end Definition

end ParseForest
