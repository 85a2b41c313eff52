import Mathlib.Logic.Relation
import ParseForest.Proofs.Declaration.Effect

/-!
Coherent types. A type is stored with all that it is made of, synonyms with what they stood for when
the type was made, so an environment could hold copies that it disagrees with. It does not: a
definition whose types are closed keeps what is stored closed. Main statements: `typeOf_closed`,
`Coherent.make`.
-/

namespace ParseForest

open Success

namespace Ty

def parts : Ty → List Ty
  | .structured _ args => args
  | .data _ ps => ps
  | .synonym _ ps aliased => aliased :: ps
  | .parameter _ bound => [bound]
  | .builtin _ | .nonterminal _ => []

/-- The second type occurs in the first one, at any depth or as all of it. -/
def Contains : Ty → Ty → Prop := Relation.ReflTransGen fun t u => u ∈ t.parts

end Ty

namespace TypeEnv

inductive Stored (env : TypeEnv) : Ty → Prop
  | formal {name : String} {ps : List Ty} {t : Ty} :
    env.dataTypes.get? name = some ps → t ∈ ps → Stored env t
  | synonymFormal {name : String} {s : Synonym} {t : Ty} :
    env.synonyms.get? name = some s → t ∈ s.parameters → Stored env t
  | aliased {name : String} {s : Synonym} :
    env.synonyms.get? name = some s → Stored env s.aliased
  | field {key : String × String} {fields : List Field} {f : Field} :
    env.constructors.get? key = some fields → f ∈ fields → Stored env f.type
  | keyword {owner : KeywordOwner} {table : Table String Keyword} {name : String} {k : Keyword} :
    env.keywords.get? owner = some table → table.get? name = some k → Stored env k.type

def Owns (env : TypeEnv) : KeywordOwner → Prop
  | .data name => name ∈ env.dataTypes.keys
  | .constructor data name => data ∈ env.dataTypes.keys ∧ (data, name) ∈ env.constructors.keys

/-- The environment declares whatever occurs in what it holds, and as what it occurs there. -/
structure Coherent (env : TypeEnv) : Prop where
  data : ∀ t name ps, env.Stored t → t.Contains (.data name ps) → name ∈ env.dataTypes.keys
  synonym : ∀ t name ps aliased, env.Stored t → t.Contains (.synonym name ps aliased) →
    ∃ s, env.synonyms.get? name = some s ∧ s.aliased = aliased
  unfolds : ∀ name s, env.synonyms.get? name = some s →
    ∀ ps aliased, ¬ s.aliased.Contains (.synonym name ps aliased)
  apart : ∀ name, name ∈ env.dataTypes.keys → name ∉ env.synonyms.keys
  constructor : ∀ data name, (data, name) ∈ env.constructors.keys → data ∈ env.dataTypes.keys
  owner : ∀ o, o ∈ env.keywords.keys → env.Owns o

def Accords (env : TypeEnv) : Ty → Prop
  | .data name _ => ∃ ps, env.entry name = (some ps, none)
  | .synonym name _ aliased => ∃ ps, env.entry name = (none, some ⟨ps, aliased⟩)
  | _ => True

def Closed (env : TypeEnv) (t : Ty) : Prop := ∀ u, t.Contains u → env.Accords u

section Closed

variable {env env' : TypeEnv} {t : Ty}

theorem closed_iff : env.Closed t ↔ env.Accords t ∧ ∀ u ∈ t.parts, env.Closed u := by
  constructor
  · intro h
    exact ⟨h t .refl, fun u hu v huv => h v (.head hu huv)⟩
  · rintro ⟨ht, hparts⟩ u hu
    rcases Relation.ReflTransGen.cases_head hu with rfl | ⟨v, hv, hvu⟩
    · exact ht
    · exact hparts v hv u hvu

theorem Accords.mono (h : env.Accords t) (hwithin : env.Within env') : env'.Accords t := by
  have hsame : ∀ name e, env.entry name = e → e ≠ (none, none) → env'.entry name = e := by
    intro name e he hne
    rw [← (hwithin.entry name).resolve_left (he ▸ hne), he]
  cases t with
  | data name ps =>
    obtain ⟨qs, hqs⟩ := h
    exact ⟨qs, hsame name _ hqs (by simp)⟩
  | synonym name ps aliased =>
    obtain ⟨qs, hqs⟩ := h
    exact ⟨qs, hsame name _ hqs (by simp)⟩
  | _ => trivial

theorem Closed.mono (h : env.Closed t) (hwithin : env.Within env') : env'.Closed t :=
  fun u hu => (h u hu).mono hwithin

theorem Closed.instantiate {ps : List Ty} (h : env.Closed t) (hps : ∀ u ∈ ps, env.Closed u) :
    env.Closed (t.instantiate ps) := by
  cases t with
  | data name qs => exact closed_iff.2 ⟨(closed_iff.1 h).1, hps⟩
  | synonym name qs aliased =>
    obtain ⟨hname, hparts⟩ := closed_iff.1 h
    exact closed_iff.2 ⟨hname, List.forall_mem_cons.2 ⟨(List.forall_mem_cons.1 hparts).1, hps⟩⟩
  | _ => exact h

end Closed

namespace Coherent

variable {env : TypeEnv} {t : Ty}

theorem entry_data (h : env.Coherent) {name : String} {ps : List Ty}
    (hps : env.dataTypes.get? name = some ps) : env.entry name = (some ps, none) := by
  cases hs : env.synonyms.get? name with
  | none => rw [TypeEnv.entry, hps, hs]
  | some s =>
    have hname : name ∉ env.synonyms.keys := h.apart name (Table.mem_keys_iff.2 ⟨ps, hps⟩)
    exact absurd (Table.mem_keys_iff.2 ⟨s, hs⟩) hname

theorem entry_synonym (h : env.Coherent) {name : String} {s : Synonym}
    (hs : env.synonyms.get? name = some s) : env.entry name = (none, some s) := by
  cases hd : env.dataTypes.get? name with
  | none => rw [TypeEnv.entry, hd, hs]
  | some ps => cases (congrArg Prod.snd (h.entry_data hd)).symm.trans hs

theorem closed (h : env.Coherent) (ht : env.Stored t) : env.Closed t := by
  intro u hu
  cases u with
  | data name ps =>
    obtain ⟨qs, hqs⟩ := Table.mem_keys_iff.1 (h.data t name ps ht hu)
    exact ⟨qs, h.entry_data hqs⟩
  | synonym name ps aliased =>
    obtain ⟨s, hs, rfl⟩ := h.synonym t name ps aliased ht hu
    exact ⟨s.parameters, h.entry_synonym hs⟩
  | _ => trivial

theorem lookup?_closed (h : env.Coherent) {name : QualifiedName}
    (ht : env.lookup? name = some t) : env.Closed t := by
  obtain ⟨n, _, ht⟩ := Option.bind_eq_some_iff.1 ht
  rcases Option.or_eq_some_iff.1 ht with hdata | ⟨_, hsynonym⟩
  · obtain ⟨ps, hps, rfl⟩ := Option.map_eq_some_iff.1 hdata
    exact closed_iff.2 ⟨⟨ps, h.entry_data hps⟩, fun u hu => h.closed (.formal hps hu)⟩
  · obtain ⟨s, hs, rfl⟩ := Option.map_eq_some_iff.1 hsynonym
    refine closed_iff.2 ⟨⟨s.parameters, h.entry_synonym hs⟩, ?_⟩
    refine List.forall_mem_cons.2 ⟨h.closed (.aliased hs), fun u hu => ?_⟩
    exact h.closed (.synonymFormal hs hu)

end Coherent

section Resolution

variable {env : TypeEnv}

mutual
theorem typeOf_closed (h : env.Coherent) :
    ∀ (e : TypeExpr) (t : Ty), env.typeOf e = .ok t → env.Closed t
  | .builtin b, t, ht => by
    cases ht
    exact closed_iff.2 ⟨trivial, by simp [Ty.parts]⟩
  | .structured kind args, t, ht => by
    obtain ⟨ts, hts, ht⟩ := bind_eq_ok.1 ht
    cases ht
    exact closed_iff.2 ⟨trivial, argumentTypes_closed h args ts hts⟩
  | .user ⟨name, parameters, span⟩, t, ht => by
    unfold typeOf at ht
    cases hlookup : env.lookup? name with
    | none => simp [hlookup] at ht
    | some declared =>
      have hdeclared := h.lookup?_closed hlookup
      cases parameters with
      | nil =>
        simp only [hlookup] at ht
        cases ht
        exact hdeclared
      | cons e es =>
        simp only [hlookup] at ht
        obtain ⟨ts, hts, ht⟩ := bind_eq_ok.1 ht
        cases ht
        exact hdeclared.instantiate (typesOf_closed h (e :: es) ts hts)
  | .typeVar name none, t, ht => by
    cases ht
    refine closed_iff.2 ⟨trivial, List.forall_mem_singleton.2 ?_⟩
    exact closed_iff.2 ⟨trivial, by simp [Ty.parts, Ty.value]⟩
  | .typeVar name (some bound), t, ht => by
    obtain ⟨u, hu, ht⟩ := bind_eq_ok.1 ht
    cases ht
    exact closed_iff.2 ⟨trivial, List.forall_mem_singleton.2 (typeOf_closed h bound u hu)⟩
  | .symbol s, t, ht => by
    cases ht
    exact closed_iff.2 ⟨trivial, by simp [Ty.parts]⟩
termination_by structural e => e

theorem typesOf_closed (h : env.Coherent) :
    ∀ (es : List TypeExpr) (ts : List Ty), env.typesOf es = .ok ts → ∀ t ∈ ts, env.Closed t
  | [], ts, hts => by
    cases hts
    simp
  | e :: es, ts, hts => by
    obtain ⟨t, ht, hts⟩ := bind_eq_ok.1 hts
    obtain ⟨us, hus, hts⟩ := bind_eq_ok.1 hts
    cases hts
    exact List.forall_mem_cons.2 ⟨typeOf_closed h e t ht, typesOf_closed h es us hus⟩
termination_by structural es => es

theorem argumentTypes_closed (h : env.Coherent) :
    ∀ (args : List (TypeArgument TypeExpr)) (ts : List Ty), env.argumentTypes args = .ok ts →
      ∀ t ∈ ts, env.Closed t
  | [], ts, hts => by
    cases hts
    simp
  | ⟨e, label⟩ :: args, ts, hts => by
    obtain ⟨t, ht, hts⟩ := bind_eq_ok.1 hts
    obtain ⟨us, hus, hts⟩ := bind_eq_ok.1 hts
    cases hts
    exact List.forall_mem_cons.2 ⟨typeOf_closed h e t ht, argumentTypes_closed h args us hus⟩
termination_by structural args => args
end

theorem formalsOf_closed (h : env.Coherent) {type : TypeReference TypeExpr} {ts : List Ty}
    (hts : env.formalsOf type = .ok ts) : ∀ t ∈ ts, env.Closed t := by
  intro t ht
  obtain ⟨e, _, he⟩ := mem_of_mapM hts ht
  cases e with
  | typeVar name bound => exact typeOf_closed h _ t he
  | _ => cases he

theorem fieldsOf_closed (h : env.Coherent) {index : Nat} {args : List (TypeArgument TypeExpr)}
    {fields : List Field} (hfields : env.fieldsOf index args = .ok fields) :
    ∀ f ∈ fields, env.Closed f.type := by
  induction args generalizing index fields with
  | nil =>
    cases hfields
    simp
  | cons arg args ih =>
    obtain ⟨t, ht, hfields⟩ := bind_eq_ok.1 hfields
    obtain ⟨rest, hrest, hfields⟩ := bind_eq_ok.1 hfields
    cases hfields
    exact List.forall_mem_cons.2 ⟨typeOf_closed h arg.type t ht, ih hrest⟩

theorem keywordsFor_closed (h : env.Coherent) {formals : List KeywordFormal}
    {ks : List (String × Keyword)} (hks : env.keywordsFor formals = .ok ks) :
    ∀ k ∈ ks, env.Closed k.2.type := by
  intro k hk
  obtain ⟨formal, _, hformal⟩ := mem_of_mapM hks hk
  obtain ⟨t, ht, hformal⟩ := bind_eq_ok.1 hformal
  cases hformal
  exact typeOf_closed h formal.type t ht

end Resolution

end TypeEnv

namespace Definition

def types : Definition → List Ty
  | data _ ps => ps
  | synonym _ ps aliased => aliased :: ps
  | constructor _ _ fields => fields.map Field.type
  | keywords _ ks => ks.map fun k => k.2.type

def Attaches (env : TypeEnv) : Definition → Prop
  | constructor owner _ _ => ∀ data, owner.declaredName? = some data → data ∈ env.dataTypes.keys
  | keywords owner _ => env.Owns owner
  | _ => True

structure Sound (env : TypeEnv) (d : Definition) : Prop where
  closed : ∀ t ∈ d.types, env.Closed t
  attaches : d.Attaches env

variable {env env' : TypeEnv} {d : Definition}

theorem make_dataTypes (h : d.make env = .ok env') {name : String} {ps : List Ty}
    (hps : env'.dataTypes.get? name = some ps) :
    env.dataTypes.get? name = some ps ∨ d = .data name ps ∧ env.entry name = (none, none) := by
  obtain ⟨_, rfl⟩ | ⟨n, qs, rfl, hentry, rfl⟩ | ⟨_, _, _, _, _, rfl⟩ |
    ⟨_, _, _, _, _, _, _, _, rfl⟩ := make_inv h
  · exact .inl hps
  · rw [Table.get?_insert] at hps
    split at hps
    next hn =>
      cases hn
      cases hps
      exact .inr ⟨rfl, hentry⟩
    next => exact .inl hps
  · exact .inl hps
  · exact .inl hps

theorem make_synonyms (h : d.make env = .ok env') {name : String} {s : Synonym}
    (hs : env'.synonyms.get? name = some s) :
    env.synonyms.get? name = some s ∨
      d = .synonym name s.parameters s.aliased ∧ env.entry name = (none, none) := by
  obtain ⟨_, rfl⟩ | ⟨_, _, _, _, rfl⟩ | ⟨n, ps, aliased, rfl, hentry, rfl⟩ |
    ⟨_, _, _, _, _, _, _, _, rfl⟩ := make_inv h
  · exact .inl hs
  · exact .inl hs
  · rw [Table.get?_insert] at hs
    split at hs
    next hn =>
      cases hn
      cases hs
      exact .inr ⟨rfl, hentry⟩
    next => exact .inl hs
  · exact .inl hs

theorem make_keywords (h : d.make env = .ok env') {owner : KeywordOwner}
    {table : Table String Keyword} (htable : env'.keywords.get? owner = some table)
    {name : String} {k : Keyword} (hk : table.get? name = some k) :
    (∃ table, env.keywords.get? owner = some table ∧ table.get? name = some k) ∨
      ∃ ks, d = .keywords owner ks ∧ (name, k) ∈ ks := by
  rw [make_addKeywords h] at htable
  cases d with
  | keywords owner' ks =>
    rw [addKeywords, Table.get?_insert] at htable
    split at htable
    next howner =>
      cases howner
      cases htable
      rw [Table.get?_insertAll, Option.or_eq_some_iff] at hk
      rcases hk with hk | ⟨_, hk⟩
      · exact .inr ⟨ks, rfl, List.mem_reverse.1 (Entries.mem_of_find? hk)⟩
      · cases hold : env.keywords.get? owner with
        | none =>
          rw [hold] at hk
          cases hk
        | some old =>
          rw [hold] at hk
          exact .inl ⟨old, rfl, hk⟩
    next => exact .inl ⟨table, htable, hk⟩
  | _ => exact .inl ⟨table, htable, hk⟩

theorem stored_of_make (h : d.make env = .ok env') {t : Ty} (ht : env'.Stored t) :
    env.Stored t ∨ t ∈ d.types := by
  cases ht with
  | formal hps ht =>
    rcases make_dataTypes h hps with hps | ⟨rfl, _⟩
    · exact .inl (.formal hps ht)
    · exact .inr ht
  | synonymFormal hs ht =>
    rcases make_synonyms h hs with hs | ⟨rfl, _⟩
    · exact .inl (.synonymFormal hs ht)
    · exact .inr (List.mem_cons_of_mem _ ht)
  | aliased hs =>
    rcases make_synonyms h hs with hs | ⟨rfl, _⟩
    · exact .inl (.aliased hs)
    · exact .inr List.mem_cons_self
  | field hfields hf =>
    rcases (make_constructors h).1 hfields with hfields | ⟨_, rfl, _⟩
    · exact .inl (.field hfields hf)
    · exact .inr (List.mem_map_of_mem hf)
  | keyword htable hk =>
    rcases make_keywords h htable hk with ⟨table, htable, hk⟩ | ⟨ks, rfl, hmem⟩
    · exact .inl (.keyword htable hk)
    · exact .inr (List.mem_map.2 ⟨_, hmem, rfl⟩)

end Definition

namespace TypeEnv

open Definition

variable {env env' : TypeEnv} {d : Definition}

theorem Within.mem_dataTypes (h : env.Within env') {name : String}
    (hname : name ∈ env.dataTypes.keys) : name ∈ env'.dataTypes.keys := by
  obtain ⟨ps, hps⟩ := Table.mem_keys_iff.1 hname
  rcases h.entry name with hnone | hsame
  · cases (congrArg Prod.fst hnone).symm.trans hps
  · exact Table.mem_keys_iff.2 ⟨ps, (congrArg Prod.fst hsame).symm.trans hps⟩

theorem mem_constructors_of_make (hmade : d.make env = .ok env') {key : String × String}
    (h : key ∈ env.constructors.keys) : key ∈ env'.constructors.keys := by
  obtain ⟨fields, hfields⟩ := Table.mem_keys_iff.1 h
  exact Table.mem_keys_iff.2 ⟨fields, (make_constructors hmade).2 (.inl hfields)⟩

theorem Owns.after {o : KeywordOwner} (h : env.Owns o) (hmade : d.make env = .ok env') :
    env'.Owns o := by
  have hwithin := make_within hmade
  cases o with
  | data name => exact hwithin.mem_dataTypes h
  | constructor data name => exact ⟨hwithin.mem_dataTypes h.1, mem_constructors_of_make hmade h.2⟩

theorem coherent_of_closed (hclosed : ∀ t, env.Stored t → env.Closed t)
    (hunfolds : ∀ name s, env.synonyms.get? name = some s →
      ∀ ps aliased, ¬ s.aliased.Contains (.synonym name ps aliased))
    (hapart : ∀ name, name ∈ env.dataTypes.keys → name ∉ env.synonyms.keys)
    (hconstructor : ∀ data name, (data, name) ∈ env.constructors.keys →
      data ∈ env.dataTypes.keys)
    (howner : ∀ o, o ∈ env.keywords.keys → env.Owns o) : env.Coherent where
  data t name ps ht hoccurs := by
    obtain ⟨qs, hqs⟩ := hclosed t ht _ hoccurs
    exact Table.mem_keys_iff.2 ⟨qs, congrArg Prod.fst hqs⟩
  synonym t name ps aliased ht hoccurs := by
    obtain ⟨qs, hqs⟩ := hclosed t ht _ hoccurs
    exact ⟨_, congrArg Prod.snd hqs, rfl⟩
  unfolds := hunfolds
  apart := hapart
  constructor := hconstructor
  owner := howner

theorem coherent_empty (moduleName : Option String) : (empty moduleName).Coherent where
  data t name ps ht := by
    cases ht with
    | formal h | synonymFormal h | aliased h | field h | keyword h => cases h
  synonym t name ps aliased ht := by
    cases ht with
    | formal h | synonymFormal h | aliased h | field h | keyword h => cases h
  unfolds name s hs := by cases hs
  apart name hname := by cases hname
  constructor data name hname := by cases hname
  owner o ho := by cases ho

theorem Coherent.make (h : env.Coherent) (hd : d.Sound env) (hmade : d.make env = .ok env') :
    env'.Coherent := by
  have hwithin : env.Within env' := make_within hmade
  refine coherent_of_closed (fun t ht => ?_) (fun name s hs ps aliased hoccurs => ?_)
    (fun name hdata hsynonym => ?_) (fun data name hkey => ?_) fun o ho => ?_
  · rcases stored_of_make hmade ht with ht | ht
    · exact (h.closed ht).mono hwithin
    · exact (hd.closed t ht).mono hwithin
  · rcases make_synonyms hmade hs with hs | ⟨rfl, hentry⟩
    · exact h.unfolds name s hs ps aliased hoccurs
    · -- The type was closed before the synonym was there, so the synonym cannot occur in it.
      obtain ⟨qs, hqs⟩ := hd.closed s.aliased List.mem_cons_self _ hoccurs
      cases hentry.symm.trans hqs
  · obtain ⟨ps, hps⟩ := Table.mem_keys_iff.1 hdata
    obtain ⟨s, hs⟩ := Table.mem_keys_iff.1 hsynonym
    rcases make_dataTypes hmade hps with hps | ⟨rfl, hentry⟩
    · rcases make_synonyms hmade hs with hs | ⟨_, hentry⟩
      · exact h.apart name (Table.mem_keys_iff.2 ⟨ps, hps⟩) (Table.mem_keys_iff.2 ⟨s, hs⟩)
      · cases hentry.symm.trans (h.entry_data hps)
    · rcases make_synonyms hmade hs with hs | ⟨hd, _⟩
      · cases hentry.symm.trans (h.entry_synonym hs)
      · cases hd
  · obtain ⟨fields, hfields⟩ := Table.mem_keys_iff.1 hkey
    rcases (make_constructors hmade).1 hfields with hfields | ⟨owner, rfl, howner⟩
    · exact hwithin.mem_dataTypes (h.constructor data name (Table.mem_keys_iff.2 ⟨_, hfields⟩))
    · exact hwithin.mem_dataTypes (hd.attaches data howner)
  · rw [make_addKeywords hmade, mem_keys_addKeywords] at ho
    rcases ho with ho | ⟨ks, rfl⟩
    · exact (h.owner o ho).after hmade
    · exact Owns.after hd.attaches hmade

end TypeEnv

end ParseForest
