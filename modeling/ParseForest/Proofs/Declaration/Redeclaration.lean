import ParseForest.Proofs.Declaration.Residue

/-!
Definitions of what is there already. One that agrees with it changes nothing. Of those that do not,
a synonym for another type, a constructor with other fields and a data type with another number of
parameters are refused; other parameters in the same number are not looked at, and keyword
parameters are replaced. Main statements: `make_of_conflicts`, `declare_again`.
-/

namespace ParseForest

open Success Declare Declaration

/-- No name stands for two types, and no constructor has two fields of one label. -/
structure TypeEnv.Proper (env : TypeEnv) : Prop where
  names : ∀ name, env.dataTypes.get? name = none ∨ env.synonyms.get? name = none
  labels : ∀ key fields, env.constructors.get? key = some fields →
    TypeEnv.repeatedLabel? [] fields = none

def TypeEnv.keyword? (env : TypeEnv) (owner : KeywordOwner) (name : String) : Option Keyword :=
  env.keywords.get? owner >>= (·.get? name)

namespace Definition

section Reachable

def declare : Definition → Declare Unit
  | data name ps => discard (Declare.data name ps)
  | synonym name ps aliased => discard (Declare.synonym name ps aliased)
  | constructor owner name fields => Declare.constructor owner name fields
  | keywords owner ks => Declare.keywords owner ks

theorem run_declare (d : Definition) (j : Journal) :
    d.declare j = match j.make d with
      | .ok j' => .ok () j'
      | .error e => .error e (j.note d) := by
  cases d with
  | data name ps =>
    have hrun : (data name ps).declare j = (Declare.data name ps >>= fun _ => pure ()) j := rfl
    have hmake : j.make (data name ps) = (fun env => { j.note (.data name ps) with env }) <$>
      Prod.fst <$> j.env.declareData name ps := rfl
    rw [hrun, hmake, run_bind, run_data]
    cases j.env.declareData name ps <;> rfl
  | synonym name ps aliased =>
    have hrun : (synonym name ps aliased).declare j =
      (Declare.synonym name ps aliased >>= fun _ => pure ()) j := rfl
    have hmake : j.make (synonym name ps aliased) =
      (fun env => { j.note (.synonym name ps aliased) with env }) <$>
        Prod.fst <$> j.env.declareSynonym name ps aliased := rfl
    rw [hrun, hmake, run_bind, run_synonym]
    cases j.env.declareSynonym name ps aliased <;> rfl
  | constructor owner name fields => exact run_constructor owner name fields j
  | keywords owner ks => rfl

/-- What is there after a row of definitions, each of which may be refused. -/
def declaredAfter (moduleName : Option String) (ds : List Definition) : Journal :=
  ds.foldl (fun j d => residue (d.declare j)) (.ofEnv (.empty moduleName))

theorem make_proper {env env' : TypeEnv} {d : Definition} (h : env.Proper)
    (hmade : d.make env = .ok env') : env'.Proper := by
  obtain ⟨_, rfl⟩ | ⟨name, ps, rfl, hnone, rfl⟩ | ⟨name, ps, aliased, rfl, hnone, rfl⟩ |
    ⟨owner, name, fields, data, rfl, _, hlabels, _, rfl⟩ := make_inv hmade
  · exact ⟨h.names, h.labels⟩
  · refine ⟨fun name' => ?_, h.labels⟩
    by_cases hname : name = name'
    · exact .inr (hname ▸ congrArg Prod.snd hnone)
    · simpa only [Table.get?_insert, if_neg hname] using h.names name'
  · refine ⟨fun name' => ?_, h.labels⟩
    by_cases hname : name = name'
    · exact .inl (hname ▸ congrArg Prod.fst hnone)
    · simpa only [Table.get?_insert, if_neg hname] using h.names name'
  · refine ⟨h.names, fun key fields' hfields => ?_⟩
    rw [Table.get?_insert] at hfields
    split at hfields
    · cases hfields
      exact hlabels
    · exact h.labels key fields' hfields

theorem declaredAfter_concat (moduleName : Option String) (ds : List Definition)
    (d : Definition) : declaredAfter moduleName (ds ++ [d]) =
      residue (d.declare (declaredAfter moduleName ds)) := by
  simp [declaredAfter]

theorem env_residue_declare (d : Definition) (j : Journal) :
    d.make j.env = .ok (residue (d.declare j)).env ∨
      (∃ e, d.make j.env = .error e) ∧ (residue (d.declare j)).env = j.env := by
  rw [run_declare]
  cases hmade : j.make d with
  | ok j' => exact .inl (Journal.make_eq_ok.1 hmade).1
  | error e => exact .inr ⟨⟨e, Journal.make_eq_error.1 hmade⟩, rfl⟩

theorem proper_declaredAfter (moduleName : Option String) (ds : List Definition) :
    (declaredAfter moduleName ds).env.Proper := by
  induction ds using List.reverseRecOn with
  | nil =>
    exact ⟨fun _ => .inl rfl, fun key fields hfields => by cases hfields⟩
  | append_singleton ds d ih =>
    rw [declaredAfter_concat]
    rcases env_residue_declare d (declaredAfter moduleName ds) with hmade | ⟨_, henv⟩
    · exact make_proper ih hmade
    · rw [henv]
      exact ih

end Reachable

section Again

variable {env : TypeEnv} {d : Definition}

/-- What is defined is there already, as it is defined. -/
def Repeats (env : TypeEnv) : Definition → Prop
  | data name ps => env.dataTypes.get? name = some ps
  | synonym name ps aliased => env.synonyms.get? name = some ⟨ps, aliased⟩
  | constructor owner name fields => ∃ data, owner.declaredName? = some data ∧
      env.constructors.get? (data, name) = some fields
  | keywords owner ks => env.keywords.contains owner ∧
      ∀ k ∈ ks, env.keyword? owner k.1 = some k.2

/-- Something that is defined is there already, but otherwise. -/
def Conflicts (env : TypeEnv) : Definition → Prop
  | data name ps => (∃ qs, env.dataTypes.get? name = some qs ∧ qs ≠ ps) ∨
      env.synonyms.contains name
  | synonym name ps aliased => (∃ s, env.synonyms.get? name = some s ∧ s ≠ ⟨ps, aliased⟩) ∨
      env.dataTypes.contains name
  | constructor owner name fields => ∃ data existing, owner.declaredName? = some data ∧
      env.constructors.get? (data, name) = some existing ∧ existing ≠ fields
  | keywords owner ks => ∃ k ∈ ks, ∃ existing, env.keyword? owner k.1 = some existing ∧
      existing ≠ k.2

/-- A difference goes unnoticed in the parameters of a data type, where their number agrees, and in
keyword parameters. -/
def Overlooks (env : TypeEnv) : Definition → Prop
  | data name ps => ∃ qs, env.dataTypes.get? name = some qs ∧ qs.length = ps.length
  | keywords .. => True
  | _ => False

def refusal : Definition → Error
  | constructor _ name fields => match TypeEnv.repeatedLabel? [] fields with
    | some label => .redeclaredField label name
    | none => .redeclaredType name
  | d => .redeclaredType d.subject

def Overrides (env env' : TypeEnv) : Definition → Prop
  | keywords owner ks => env' = { env with keywords := env'.keywords } ∧
      (∀ owner', owner' ≠ owner → env'.keywords.get? owner' = env.keywords.get? owner') ∧
      ∀ name, env'.keyword? owner name =
        (Entries.find? name ks.reverse).or (env.keyword? owner name)
  | _ => env' = env

theorem Repeats.holds (h : d.Repeats env) (henv : env.Proper) : d.Holds env := by
  cases d with
  | data name ps =>
    have hdata : env.dataTypes.get? name = some ps := h
    have hnone := (henv.names name).resolve_left (by simp [hdata])
    exact ⟨ps, Prod.ext hdata hnone, rfl⟩
  | synonym name ps aliased =>
    have hsynonym : env.synonyms.get? name = some ⟨ps, aliased⟩ := h
    have hnone := (henv.names name).resolve_right (by simp [hsynonym])
    exact Prod.ext hnone hsynonym
  | constructor owner name fields =>
    obtain ⟨data, howner, hfields⟩ := h
    exact ⟨data, howner, henv.labels _ _ hfields, hfields⟩
  | keywords owner ks => trivial

theorem Repeats.addKeywords (h : d.Repeats env) : d.addKeywords env.keywords = env.keywords := by
  cases d with
  | keywords owner ks =>
    obtain ⟨howner, hks⟩ := h
    obtain ⟨t, ht⟩ := Option.isSome_iff_exists.1 howner
    have hentries : ∀ k ∈ ks, t.get? k.1 = some k.2 := by
      simpa [TypeEnv.keyword?, ht] using hks
    rw [Definition.addKeywords, ht, Option.getD_some, Table.insertAll_of_get? hentries,
      Table.insert_of_get? ht]
  | _ => rfl

theorem Repeats.make (h : d.Repeats env) (henv : env.Proper) : d.make env = .ok env := by
  rw [(h.holds henv).make, h.addKeywords]

theorem make_of_conflicts (h : d.Conflicts env) (hseen : ¬ d.Overlooks env) :
    d.make env = .error d.refusal := by
  cases d with
  | data name ps =>
    by_cases hs : env.synonyms.contains name
    · simp [Definition.make, TypeEnv.declareData, hs, refusal, subject]
    · obtain ⟨qs, hqs, _⟩ := h.resolve_right hs
      have hlength : qs.length ≠ ps.length := fun heq => hseen ⟨qs, hqs, heq⟩
      simp [Definition.make, TypeEnv.declareData, hs, hqs, hlength, refusal, subject]
  | synonym name ps aliased =>
    by_cases hd : env.dataTypes.contains name
    · simp [Definition.make, TypeEnv.declareSynonym, hd, refusal, subject]
    · obtain ⟨s, hs, hne⟩ := h.resolve_right hd
      simp [Definition.make, TypeEnv.declareSynonym, hd, hs, hne, refusal, subject]
  | constructor owner name fields =>
    obtain ⟨data, existing, howner, hexisting, hne⟩ := h
    cases hlabels : TypeEnv.repeatedLabel? [] fields with
    | some label => simp [Definition.make, TypeEnv.declareConstructor, howner, hlabels, refusal]
    | none =>
      simp [Definition.make, TypeEnv.declareConstructor, howner, hlabels, hexisting, hne, refusal]
  | keywords owner ks => exact absurd trivial hseen

theorem exists_make_of_overlooks (henv : env.Proper) (h : d.Overlooks env) :
    ∃ env', d.make env = .ok env' ∧ d.Overrides env env' := by
  cases d with
  | data name ps =>
    obtain ⟨qs, hqs, hlength⟩ := h
    have hnone := (henv.names name).resolve_left (by simp [hqs])
    have hholds : (data name ps).Holds env := ⟨qs, Prod.ext hqs hnone, hlength⟩
    exact ⟨env, hholds.make, rfl⟩
  | keywords owner ks =>
    refine ⟨_, rfl, rfl, fun owner' howner => ?_, fun name => ?_⟩
    · simp only [TypeEnv.declareKeywords, Table.get?_insert, if_neg howner.symm]
    · have hget : (env.declareKeywords owner ks).keyword? owner name =
          (((env.keywords.get? owner).getD .empty).insertAll ks).get? name := by
        simp [TypeEnv.keyword?, TypeEnv.declareKeywords, Table.get?_insert, Table.insertAll]
      rw [hget, Table.get?_insertAll, TypeEnv.keyword?]
      cases env.keywords.get? owner <;> rfl
  | _ => exact h.elim

end Again

/-- After definitions each of which may have been refused, one that agrees with what is there
changes nothing, and so does one that does not and is refused. -/
theorem declare_again {j : Journal} (hj : ∃ moduleName ds, declaredAfter moduleName ds = j)
    (d : Definition) :
    (d.Repeats j.env → d.declare j = .ok () (j.note d)) ∧
    (d.Conflicts j.env → ¬ d.Overlooks j.env → d.declare j = .error d.refusal (j.note d)) ∧
    (d.Conflicts j.env → d.Overlooks j.env →
      ∃ j', d.declare j = .ok () j' ∧ d.Overrides j.env j'.env) := by
  have hproper : j.env.Proper := by
    obtain ⟨moduleName, ds, rfl⟩ := hj
    exact proper_declaredAfter moduleName ds
  simp only [run_declare]
  refine ⟨fun h => ?_, fun h hseen => ?_, fun _ h => ?_⟩
  · have hmade : j.make d = .ok (j.note d) := Journal.make_eq_ok.2 ⟨h.make hproper, rfl⟩
    rw [hmade]
  · rw [Journal.make_eq_error.2 (make_of_conflicts h hseen)]
  · obtain ⟨env', hmade, hoverrides⟩ := exists_make_of_overlooks hproper h
    obtain ⟨j', hj'⟩ := Journal.exists_make hmade
    have henv := (Journal.make_eq_ok.1 hj').1
    cases hmade.symm.trans henv
    exact ⟨j', by rw [hj'], hoverrides⟩

def box (bound : Ty) : Definition := .data "Box" [.parameter "T" bound]

def line (type : Ty) : Definition := .keywords (.data "Box") [("line", ⟨type, defaultOne⟩)]

def boxes (aliased : Ty) : Definition := .synonym "Boxes" [] aliased

def boxed : Journal := declaredAfter none [box .value, line (.builtin .int), boxes .value]

theorem declare_again_boxed :
    (box .value).declare boxed = .ok () (boxed.note (box .value)) ∧
    (boxes (.builtin .int)).declare boxed =
      .error (.redeclaredType "Boxes") (boxed.note (boxes (.builtin .int))) ∧
    ∃ j', (line (.builtin .string)).declare boxed = .ok () j' ∧
      j'.env.keyword? (.data "Box") "line" = some ⟨.builtin .string, defaultOne⟩ := by
  have hboxed : ∃ moduleName ds, declaredAfter moduleName ds = boxed := ⟨_, _, rfl⟩
  refine ⟨(declare_again hboxed _).1 rfl, ?_, ?_⟩
  · exact (declare_again hboxed _).2.1 (.inl ⟨_, rfl, by decide⟩) id
  · have hconflicts : (line (.builtin .string)).Conflicts boxed.env :=
      ⟨_, List.mem_cons_self, ⟨.builtin .int, defaultOne⟩, rfl, by simp⟩
    obtain ⟨j', hj', _, _, hkeyword⟩ := (declare_again hboxed _).2.2 hconflicts trivial
    exact ⟨j', hj', hkeyword "line"⟩

/-- Another bound of a parameter and another type of a keyword parameter, both let through. -/
theorem conflicts_pass :
    (box (.builtin .int)).Conflicts boxed.env ∧
    (box (.builtin .int)).declare boxed = .ok () (boxed.note (box (.builtin .int))) ∧
    (line (.builtin .string)).Conflicts boxed.env ∧
    ∃ j', (line (.builtin .string)).declare boxed = .ok () j' ∧
      j'.env.keyword? (.data "Box") "line" ≠ boxed.env.keyword? (.data "Box") "line" := by
  refine ⟨.inl ⟨_, rfl, by decide⟩, rfl, ?_, _, rfl, ?_⟩
  · exact ⟨_, List.mem_cons_self, ⟨.builtin .int, defaultOne⟩, rfl, by simp⟩
  · show some (⟨.builtin .string, defaultOne⟩ : Keyword) ≠ some ⟨.builtin .int, defaultOne⟩
    simp

end Definition

end ParseForest
