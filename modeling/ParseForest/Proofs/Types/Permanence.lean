import ParseForest.Proofs.Declaration.Contents
import ParseForest.Proofs.Declaration.Record
import ParseForest.Proofs.Declaration.Redeclaration

/-!
What is declared stays. Definitions of any kind, with any arguments and in any order, only append to
the types, synonyms and constructors that are there, whether they are made or refused, so that a
name which stands for a type stands for it from then on. Keyword parameters take new values, but
keep the places in which their names first came. Main statements: `extends_of_make`,
`extends_declaredAfter`, `keywords_declaredAfter`, `declared_stays`.
-/

namespace ParseForest

open Declare Declaration

theorem Table.entries_prefix_insert {κ ν : Type} [DecidableEq κ] {t : Table κ ν} {k : κ}
    (h : t.get? k = none) (v : ν) : t.entries <+: (t.insert k v).entries := by
  rw [entries_insert_of_new h]
  exact List.prefix_append ..

theorem Table.get?_of_prefix {κ ν : Type} [DecidableEq κ] {t t' : Table κ ν} {k : κ} {v : ν}
    (h : t.entries <+: t'.entries) (hv : t.get? k = some v) : t'.get? k = some v := by
  obtain ⟨rest, hrest⟩ := h
  rw [get?, ← hrest, Entries.find?_append, ← get?, hv, Option.some_or]

/-- All of the first environment is in the second, in the same order, and what follows is new. -/
structure TypeEnv.Extends (env env' : TypeEnv) : Prop where
  moduleName : env.moduleName = env'.moduleName
  dataTypes : env.dataTypes.entries <+: env'.dataTypes.entries
  synonyms : env.synonyms.entries <+: env'.synonyms.entries
  constructors : env.constructors.entries <+: env'.constructors.entries

namespace TypeEnv.Extends

variable {env env' env'' : TypeEnv}

theorem refl (env : TypeEnv) : env.Extends env :=
  ⟨rfl, List.prefix_rfl, List.prefix_rfl, List.prefix_rfl⟩

theorem trans (h : env.Extends env') (h' : env'.Extends env'') : env.Extends env'' :=
  ⟨h.moduleName.trans h'.moduleName, h.dataTypes.trans h'.dataTypes,
    h.synonyms.trans h'.synonyms, h.constructors.trans h'.constructors⟩

theorem within (h : env.Extends env') (henv' : env'.Proper) : env.Within env' := by
  refine ⟨h.moduleName, fun name => ?_⟩
  unfold TypeEnv.entry
  cases hd : env.dataTypes.get? name with
  | some ps =>
    have hd' := Table.get?_of_prefix h.dataTypes hd
    have hs' := (henv'.names name).resolve_left (by simp [hd'])
    have hs : env.synonyms.get? name = none := by
      by_contra hsome
      obtain ⟨s, hs⟩ := Option.ne_none_iff_exists'.1 hsome
      cases hs'.symm.trans (Table.get?_of_prefix h.synonyms hs)
    exact .inr (by rw [hs, hd', hs'])
  | none =>
    cases hs : env.synonyms.get? name with
    | none => exact .inl rfl
    | some s =>
      have hs' := Table.get?_of_prefix h.synonyms hs
      have hd' := (henv'.names name).resolve_right (by simp [hs'])
      exact .inr (by rw [hd', hs'])

theorem lookup? (h : env.Extends env') (henv' : env'.Proper) {name : QualifiedName} {t : Ty}
    (ht : env.lookup? name = some t) : env'.lookup? name = some t := by
  rcases (h.within henv').lookup? name with hnone | heq
  · cases hnone.symm.trans ht
  · exact heq.symm.trans ht

end TypeEnv.Extends

namespace Definition

variable {env env' : TypeEnv} {d : Definition}

theorem extends_of_make (h : d.make env = .ok env') : env.Extends env' := by
  obtain ⟨_, rfl⟩ | ⟨name, ps, rfl, hentry, rfl⟩ | ⟨name, ps, aliased, rfl, hentry, rfl⟩ |
    ⟨owner, name, fields, data, rfl, _, _, hnone, rfl⟩ := make_inv h
  · exact ⟨rfl, List.prefix_rfl, List.prefix_rfl, List.prefix_rfl⟩
  · have hnew := Table.entries_prefix_insert (congrArg Prod.fst hentry) ps
    exact ⟨rfl, hnew, List.prefix_rfl, List.prefix_rfl⟩
  · have hnew := Table.entries_prefix_insert (congrArg Prod.snd hentry) ⟨ps, aliased⟩
    exact ⟨rfl, List.prefix_rfl, hnew, List.prefix_rfl⟩
  · exact ⟨rfl, List.prefix_rfl, List.prefix_rfl, Table.entries_prefix_insert hnone fields⟩

theorem extends_residue (d : Definition) (j : Journal) :
    j.env.Extends (residue (d.declare j)).env := by
  rcases env_residue_declare d j with hmade | ⟨_, henv⟩
  · exact extends_of_make hmade
  · rw [henv]
    exact .refl _

theorem extends_declaredAfter (moduleName : Option String) (ds later : List Definition) :
    (declaredAfter moduleName ds).env.Extends (declaredAfter moduleName (ds ++ later)).env := by
  induction later using List.reverseRecOn with
  | nil =>
    rw [List.append_nil]
    exact .refl _
  | append_singleton later d ih =>
    rw [← List.append_assoc, declaredAfter_concat]
    exact ih.trans (extends_residue d _)

theorem addAllKeywords_concat (ds : List Definition) (t : KeywordTable) :
    addAllKeywords (ds ++ [d]) t = d.addKeywords (addAllKeywords ds t) :=
  List.foldl_concat ..

theorem keywords_declaredAfter (moduleName : Option String) (ds : List Definition) :
    (declaredAfter moduleName ds).env.keywords = addAllKeywords ds .empty := by
  induction ds using List.reverseRecOn with
  | nil => rfl
  | append_singleton ds d ih =>
    rw [declaredAfter_concat, addAllKeywords_concat, ← ih]
    rcases env_residue_declare d (declaredAfter moduleName ds) with hmade | ⟨⟨e, he⟩, henv⟩
    · exact make_addKeywords hmade
    · rw [henv]
      cases d with
      | keywords owner ks => cases he
      | _ => rfl

theorem keys_keywordsOf (moduleName : Option String) (ds : List Definition)
    (owner : KeywordOwner) :
    ((declaredAfter moduleName ds).env.keywordsOf owner).map (·.1) =
      ((keywordsIn owner ds).flatten.map (·.1)).eraseDups := by
  have hget : (declaredAfter moduleName ds).env.keywords.get? owner =
      extended (keywordsIn owner ds) none := by
    rw [keywords_declaredAfter, get?_addAllKeywords]
    rfl
  rw [keywordsOf_eq, hget]
  unfold extended
  split
  next h =>
    rw [h]
    rfl
  next => exact Table.keys_insertAll ..

/-- At any moment a definition that is refused changes nothing, what is there is there in the same
order whatever is defined later, and means the same; names, labels and keywords are told apart, and
keywords stand in the order in which they first came. -/
theorem declared_stays (moduleName : Option String) (ds : List Definition) :
    let env := (declaredAfter moduleName ds).env
    (∀ (d : Definition) e j, d.declare (declaredAfter moduleName ds) = .error e j → j.env = env) ∧
    (∀ later, env.Extends (declaredAfter moduleName (ds ++ later)).env) ∧
    (∀ later name t, env.lookup? name = some t →
      (declaredAfter moduleName (ds ++ later)).env.lookup? name = some t) ∧
    (∀ name, ¬ (name ∈ env.dataTypes.keys ∧ name ∈ env.synonyms.keys)) ∧
    (∀ key fields, env.constructors.get? key = some fields → (fields.map (·.label)).Nodup) ∧
    ∀ owner, ((env.keywordsOf owner).map (·.1)).Nodup ∧ (env.keywordsOf owner).map (·.1) =
      ((keywordsIn owner ds).flatten.map (·.1)).eraseDups := by
  intro env
  have henv : env.Proper := proper_declaredAfter moduleName ds
  refine ⟨fun d e j h => ?_, extends_declaredAfter moduleName ds, fun later name t ht => ?_,
    fun name => ?_, fun key fields hfields => ?_, fun owner => ⟨?_, keys_keywordsOf ..⟩⟩
  · rw [run_declare] at h
    split at h
    · cases h
    · cases h
      rfl
  · exact (extends_declaredAfter moduleName ds later).lookup? (proper_declaredAfter ..) ht
  · rintro ⟨hd, hs⟩
    obtain ⟨ps, hps⟩ := Table.mem_keys_iff.1 hd
    obtain ⟨s, hs⟩ := Table.mem_keys_iff.1 hs
    rcases henv.names name with hnone | hnone
    · cases hnone.symm.trans hps
    · cases hnone.symm.trans hs
  · exact unseen_nil.1 (TypeEnv.repeatedLabel?_eq_none.1 (henv.labels key fields hfields))
  · rw [keywordsOf_eq]
    exact Table.nodup _

def field (label : String) : Field := ⟨label, .builtin .int⟩

def mixed : List Definition :=
  [boxes (.builtin .int), .synonym "Box" [] (.builtin .int),
    .constructor (.data "Box" []) "box" [field "item"],
    .constructor (.data "Box" []) "crate" [field "item", field "item"],
    line (.builtin .int), .data "Boxes" [],
    .keywords (.data "Box") [("size", ⟨.builtin .int, defaultOne⟩), ("line", ⟨.value, defaultOne⟩)]]

theorem declared_stays_mixed :
    (declaredAfter none [box .value]).env.lookup? ⟨[], "Box"⟩ =
      some (.data "Box" [.parameter "T" .value]) ∧
    (declaredAfter none ([box .value] ++ mixed)).env.lookup? ⟨[], "Box"⟩ =
      some (.data "Box" [.parameter "T" .value]) ∧
    ((declaredAfter none ([box .value] ++ mixed)).env.keywordsOf (.data "Box")).map (·.1) =
      ["line", "size"] ∧
    (Definition.data "Box" []).declare (declaredAfter none [box .value]) =
      .error (.redeclaredType "Box") ((declaredAfter none [box .value]).note (.data "Box" [])) := by
  have hbox : (declaredAfter none [box .value]).env.lookup? ⟨[], "Box"⟩ =
      some (.data "Box" [.parameter "T" .value]) := rfl
  obtain ⟨_, _, hlookup, _⟩ := declared_stays none [box .value]
  obtain ⟨_, _, _, _, _, hkeywords⟩ := declared_stays none ([box .value] ++ mixed)
  exact ⟨hbox, hlookup mixed _ _ hbox, (hkeywords (.data "Box")).2.trans (by decide), rfl⟩

end Definition

end ParseForest
