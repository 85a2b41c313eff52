import ParseForest.Proofs.Declaration.Growth
import ParseForest.Proofs.Declaration.Sequence
import ParseForest.Proofs.Table

/-!
What definitions leave behind. A definition of a type or a constructor holds once it has been made
and from then on; made again, it changes nothing. Keyword parameters are put in anew each time, in
the order of their definitions. Main statements: `makeAll_holds`, `makeAll_keywords`,
`exists_makeAll`, `makeAll_makeAll`.
-/

namespace ParseForest

open Success

abbrev KeywordTable := Table KeywordOwner (Table String Keyword)

namespace Definition

/-- The definition is in accord with types that stand for `entry` and fields spelled by `spells`. -/
def Fits (entry : String → Option (List Ty) × Option Synonym)
    (spells : String × String → List Field → Prop) : Definition → Prop
  | data name parameters =>
    ∃ ps, entry name = (some ps, none) ∧ ps.length = parameters.length
  | synonym name parameters aliased => entry name = (none, some ⟨parameters, aliased⟩)
  | constructor owner name fields => ∃ data, owner.declaredName? = some data ∧
      TypeEnv.repeatedLabel? [] fields = none ∧ spells (data, name) fields
  | keywords .. => True

def Holds (env : TypeEnv) (d : Definition) : Prop :=
  d.Fits env.entry fun key fields => env.constructors.get? key = some fields

def addKeywords (t : KeywordTable) : Definition → KeywordTable
  | keywords owner parameters =>
    t.insert owner (((t.get? owner).getD .empty).insertAll parameters)
  | _ => t

variable {env env' : TypeEnv} {d d' : Definition}
  {entry entry' : String → Option (List Ty) × Option Synonym}
  {spells spells' : String × String → List Field → Prop}

theorem Fits.mono (h : d.Fits entry spells)
    (hentry : ∀ name, entry name = (none, none) ∨ entry name = entry' name)
    (hspells : ∀ key fields, spells key fields → spells' key fields) : d.Fits entry' spells' := by
  have hsame : ∀ name e, entry name = e → e ≠ (none, none) → entry' name = e := by
    intro name e he hne
    rw [← (hentry name).resolve_left (he ▸ hne), he]
  cases d with
  | data name ps =>
    obtain ⟨qs, hqs, hlength⟩ := h
    exact ⟨qs, hsame name _ hqs (by simp), hlength⟩
  | synonym name ps aliased => exact hsame name _ h (by simp)
  | constructor owner name fields =>
    obtain ⟨data, howner, hlabels, hfields⟩ := h
    exact ⟨data, howner, hlabels, hspells _ _ hfields⟩
  | keywords owner ks => trivial

theorem make_inv (h : d.make env = .ok env') :
    (d.Holds env ∧ { env with keywords := d.addKeywords env.keywords } = env') ∨
    (∃ name ps, d = .data name ps ∧ env.entry name = (none, none) ∧
      { env with dataTypes := env.dataTypes.insert name ps } = env') ∨
    (∃ name ps aliased, d = .synonym name ps aliased ∧ env.entry name = (none, none) ∧
      { env with synonyms := env.synonyms.insert name ⟨ps, aliased⟩ } = env') ∨
    ∃ owner name fields data, d = .constructor owner name fields ∧
      owner.declaredName? = some data ∧ TypeEnv.repeatedLabel? [] fields = none ∧
      env.constructors.get? (data, name) = none ∧
      { env with constructors := env.constructors.insert (data, name) fields } = env' := by
  cases d with
  | data name ps =>
    obtain ⟨⟨_, _⟩, hdeclared, rfl⟩ := map_eq_ok.1 h
    obtain ⟨hs, ⟨qs, hd, hlength, rfl, _⟩ | ⟨hd, _, rfl⟩⟩ := TypeEnv.declareData_eq_ok.1 hdeclared
    · exact .inl ⟨⟨qs, by rw [TypeEnv.entry, hd, hs], hlength⟩, rfl⟩
    · exact .inr (.inl ⟨name, ps, rfl, by rw [TypeEnv.entry, hd, hs], rfl⟩)
  | synonym name ps aliased =>
    obtain ⟨⟨_, _⟩, hdeclared, rfl⟩ := map_eq_ok.1 h
    obtain ⟨hd, _, ⟨hs, rfl⟩ | ⟨hs, rfl⟩⟩ := TypeEnv.declareSynonym_eq_ok.1 hdeclared
    · have hentry : env.entry name = (none, some ⟨ps, aliased⟩) := by rw [TypeEnv.entry, hd, hs]
      exact .inl ⟨hentry, rfl⟩
    · exact .inr (.inr (.inl ⟨name, ps, aliased, rfl, by rw [TypeEnv.entry, hd, hs], rfl⟩))
  | constructor owner name fields =>
    obtain ⟨data, howner, hlabels, ⟨hc, rfl⟩ | ⟨hc, rfl⟩⟩ :=
      TypeEnv.declareConstructor_eq_ok.1 h
    · exact .inl ⟨⟨data, howner, hlabels, hc⟩, rfl⟩
    · exact .inr (.inr (.inr ⟨owner, name, fields, data, rfl, howner, hlabels, hc, rfl⟩))
  | keywords owner ks =>
    cases h
    exact .inl ⟨trivial, rfl⟩

theorem holds_of_make (h : d.make env = .ok env') : d.Holds env' := by
  obtain ⟨hd, rfl⟩ | ⟨name, ps, rfl, hentry, rfl⟩ | ⟨name, ps, aliased, rfl, hentry, rfl⟩ |
    ⟨owner, name, fields, data, rfl, howner, hlabels, _, rfl⟩ := make_inv h
  · exact hd
  · obtain ⟨_, hs⟩ := Prod.mk.inj hentry
    exact ⟨ps, by simp [TypeEnv.entry, Table.get?_insert, hs], rfl⟩
  · obtain ⟨hd, _⟩ := Prod.mk.inj hentry
    simp [Holds, Fits, TypeEnv.entry, Table.get?_insert, hd]
  · exact ⟨data, howner, hlabels, by simp [Table.get?_insert]⟩

theorem Holds.make (h : d.Holds env) :
    d.make env = .ok { env with keywords := d.addKeywords env.keywords } := by
  cases d with
  | data name ps =>
    obtain ⟨qs, hqs, hlength⟩ := h
    obtain ⟨hd, hs⟩ := Prod.mk.inj hqs
    exact map_eq_ok.2 ⟨_, TypeEnv.declareData_eq_ok.2 ⟨hs, .inl ⟨qs, hd, hlength, rfl, rfl⟩⟩, rfl⟩
  | synonym name ps aliased =>
    obtain ⟨hd, hs⟩ := Prod.mk.inj h
    exact map_eq_ok.2 ⟨_, TypeEnv.declareSynonym_eq_ok.2 ⟨hd, rfl, .inl ⟨hs, rfl⟩⟩, rfl⟩
  | constructor owner name fields =>
    obtain ⟨data, howner, hlabels, hc⟩ := h
    exact TypeEnv.declareConstructor_eq_ok.2 ⟨data, howner, hlabels, .inl ⟨hc, rfl⟩⟩
  | keywords owner ks => rfl

theorem make_addKeywords (h : d.make env = .ok env') :
    env'.keywords = d.addKeywords env.keywords := by
  obtain ⟨_, rfl⟩ | ⟨_, _, rfl, _, rfl⟩ | ⟨_, _, _, rfl, _, rfl⟩ |
    ⟨_, _, _, _, rfl, _, _, _, rfl⟩ := make_inv h
  all_goals rfl

theorem make_constructors (h : d.make env = .ok env') {key : String × String}
    {fields : List Field} :
    env'.constructors.get? key = some fields ↔ env.constructors.get? key = some fields ∨
      ∃ owner, d = .constructor owner key.2 fields ∧ owner.declaredName? = some key.1 := by
  obtain ⟨hd, rfl⟩ | ⟨_, _, rfl, _, rfl⟩ | ⟨_, _, _, rfl, _, rfl⟩ |
    ⟨owner, name, fs, data, rfl, howner, _, hc, rfl⟩ := make_inv h
  · refine ⟨.inl, ?_⟩
    rintro (hc | ⟨owner, rfl, howner⟩)
    · exact hc
    · obtain ⟨data, howner', _, hc⟩ := hd
      cases howner.symm.trans howner'
      exact hc
  · simp
  · simp
  · rw [Table.get?_insert]
    by_cases hkey : (data, name) = key
    · subst hkey
      rw [if_pos rfl, hc]
      constructor
      · intro hfields
        cases hfields
        exact .inr ⟨owner, rfl, howner⟩
      · rintro (hnone | ⟨_, heq, _⟩)
        · cases hnone
        · cases heq
          rfl
    · rw [if_neg hkey]
      refine ⟨.inl, ?_⟩
      rintro (hother | ⟨_, heq, howner'⟩)
      · exact hother
      · cases heq
        cases howner.symm.trans howner'
        exact absurd rfl hkey

theorem Holds.after (h : d.Holds env) (hmade : d'.make env = .ok env') : d.Holds env' :=
  h.mono (make_within hmade).entry fun _ _ hfields => (make_constructors hmade).2 (.inl hfields)

end Definition

section MakeAll

open Definition

variable {env env' : TypeEnv} {ds : List Definition} {d : Definition}

theorem Definition.Holds.afterAll (hd : d.Holds env) (h : makeAll env ds = .ok env') :
    d.Holds env' := by
  induction ds generalizing env with
  | nil =>
    cases h
    exact hd
  | cons d' ds ih =>
    obtain ⟨next, hd', hrest⟩ := makeAll_cons.1 h
    exact ih (hd.after hd') hrest

theorem makeAll_holds (h : makeAll env ds = .ok env') (hd : d ∈ ds) : d.Holds env' := by
  obtain ⟨before, after, rfl⟩ := List.append_of_mem hd
  obtain ⟨m, _, h⟩ := makeAll_append.1 h
  obtain ⟨m', hmade, hafter⟩ := makeAll_cons.1 h
  exact (holds_of_make hmade).afterAll hafter

theorem makeAll_constructors (h : makeAll env ds = .ok env') {key : String × String}
    {fields : List Field} :
    env'.constructors.get? key = some fields ↔ env.constructors.get? key = some fields ∨
      ∃ owner, .constructor owner key.2 fields ∈ ds ∧ owner.declaredName? = some key.1 := by
  induction ds generalizing env with
  | nil =>
    cases h
    simp
  | cons d ds ih =>
    obtain ⟨next, hd, hrest⟩ := makeAll_cons.1 h
    rw [ih hrest, make_constructors hd, or_assoc]
    simp only [List.mem_cons, or_and_right, exists_or, eq_comm (a := d)]

def addAllKeywords (ds : List Definition) (t : KeywordTable) : KeywordTable :=
  ds.foldl addKeywords t

theorem makeAll_keywords (h : makeAll env ds = .ok env') :
    env'.keywords = addAllKeywords ds env.keywords := by
  induction ds generalizing env with
  | nil =>
    cases h
    rfl
  | cons d ds ih =>
    obtain ⟨next, hd, hrest⟩ := makeAll_cons.1 h
    rw [ih hrest, make_addKeywords hd]
    rfl

theorem makeAll_of_holds (h : ∀ d ∈ ds, d.Holds env) :
    makeAll env ds = .ok { env with keywords := addAllKeywords ds env.keywords } := by
  induction ds generalizing env with
  | nil => rfl
  | cons d ds ih =>
    obtain ⟨hd, hds⟩ := List.forall_mem_cons.1 h
    exact makeAll_cons.2 ⟨_, hd.make, ih hds⟩

theorem exists_makeAll {spells : String × String → List Field → Prop}
    (hspells : ∀ key fields fields', spells key fields → spells key fields' → fields = fields')
    (henv : ∀ key fields, env.constructors.get? key = some fields → spells key fields)
    (hds : ∀ d ∈ ds, d.Fits env.entry spells) : ∃ env', makeAll env ds = .ok env' := by
  induction ds generalizing env with
  | nil => exact ⟨env, rfl⟩
  | cons d ds ih =>
    obtain ⟨hd, hds⟩ := List.forall_mem_cons.1 hds
    obtain ⟨next, hmade⟩ : ∃ next, d.make env = .ok next := by
      cases d with
      | constructor owner name fields =>
        obtain ⟨data, howner, hlabels, hfields⟩ := hd
        cases hc : env.constructors.get? (data, name) with
        | none =>
          exact ⟨_, TypeEnv.declareConstructor_eq_ok.2 ⟨data, howner, hlabels, .inr ⟨hc, rfl⟩⟩⟩
        | some existing =>
          cases hspells _ _ _ hfields (henv _ _ hc)
          exact ⟨_, TypeEnv.declareConstructor_eq_ok.2 ⟨data, howner, hlabels, .inl ⟨hc, rfl⟩⟩⟩
      | data name ps => exact ⟨_, Holds.make hd⟩
      | synonym name ps aliased => exact ⟨_, Holds.make hd⟩
      | keywords owner ks => exact ⟨_, Holds.make hd⟩
    obtain ⟨env', hrest⟩ : ∃ env', makeAll next ds = .ok env' := by
      refine ih (fun key fields hc => ?_) fun d' hd' => ?_
      · rcases (make_constructors hmade).1 hc with hc | ⟨owner, rfl, howner⟩
        · exact henv key fields hc
        · obtain ⟨data, howner', _, hfields⟩ := hd
          cases howner.symm.trans howner'
          exact hfields
      · exact (hds d' hd').mono (make_within hmade).entry fun _ _ h => h
    exact ⟨env', makeAll_cons.2 ⟨next, hmade, hrest⟩⟩

end MakeAll

section Keywords

open Definition

def Definition.keywordsFor? (owner : KeywordOwner) : Definition → Option (List (String × Keyword))
  | keywords owner' parameters => if owner' = owner then some parameters else none
  | _ => none

/-- The keyword parameters that definitions put in for an owner, one list for each of them. -/
def keywordsIn (owner : KeywordOwner) (ds : List Definition) : List (List (String × Keyword)) :=
  ds.filterMap (keywordsFor? owner)

def extended (blocks : List (List (String × Keyword))) (t : Option (Table String Keyword)) :
    Option (Table String Keyword) :=
  if blocks = [] then t else some ((t.getD .empty).insertAll blocks.flatten)

theorem extended_cons (block : List (String × Keyword)) (blocks : List (List (String × Keyword)))
    (t : Option (Table String Keyword)) :
    extended (block :: blocks) t =
      extended blocks (some ((t.getD .empty).insertAll block)) := by
  by_cases h : blocks = []
  · simp [extended, h]
  · simp [extended, h, Table.insertAll_append]

theorem extended_append (blocks blocks' : List (List (String × Keyword)))
    (t : Option (Table String Keyword)) :
    extended (blocks ++ blocks') t = extended blocks' (extended blocks t) := by
  induction blocks generalizing t with
  | nil => simp [extended]
  | cons block blocks ih => rw [List.cons_append, extended_cons, extended_cons, ih]

theorem extended_extended (blocks : List (List (String × Keyword)))
    (t : Option (Table String Keyword)) :
    extended blocks (extended blocks t) = extended blocks t := by
  by_cases h : blocks = []
  · simp [extended, h]
  · simp [extended, h, Table.insertAll_insertAll]

variable {owner : KeywordOwner} {t : KeywordTable} {ds : List Definition}

theorem get?_addAllKeywords :
    (addAllKeywords ds t).get? owner = extended (keywordsIn owner ds) (t.get? owner) := by
  induction ds generalizing t with
  | nil => simp [addAllKeywords, keywordsIn, extended]
  | cons d ds ih =>
    have hstep : addAllKeywords (d :: ds) t = addAllKeywords ds (d.addKeywords t) := rfl
    rw [hstep, ih]
    cases d with
    | keywords owner' ks =>
      by_cases h : owner' = owner
      · subst h
        have hblocks :
            keywordsIn owner' (keywords owner' ks :: ds) = ks :: keywordsIn owner' ds := by
          simp [keywordsIn, keywordsFor?]
        rw [hblocks, extended_cons, addKeywords, Table.get?_insert, if_pos rfl]
      · have hblocks : keywordsIn owner (keywords owner' ks :: ds) = keywordsIn owner ds := by
          simp [keywordsIn, keywordsFor?, h]
        rw [hblocks, addKeywords, Table.get?_insert, if_neg h]
    | _ => rfl

theorem mem_keys_addKeywords {d : Definition} :
    owner ∈ (d.addKeywords t).keys ↔ owner ∈ t.keys ∨ ∃ ks, d = .keywords owner ks := by
  cases d with
  | keywords owner' ks =>
    rw [addKeywords, Table.mem_keys_insert]
    simp [eq_comm (a := owner)]
  | _ => simp [addKeywords]

theorem mem_keys_addAllKeywords :
    owner ∈ (addAllKeywords ds t).keys ↔ owner ∈ t.keys ∨ ∃ ks, .keywords owner ks ∈ ds := by
  induction ds generalizing t with
  | nil => simp [addAllKeywords]
  | cons d ds ih =>
    have hstep : addAllKeywords (d :: ds) t = addAllKeywords ds (d.addKeywords t) := rfl
    rw [hstep, ih, mem_keys_addKeywords, or_assoc]
    simp only [List.mem_cons, exists_or, eq_comm (a := d)]

theorem keys_addAllKeywords_of_subset (h : ∀ owner ks, .keywords owner ks ∈ ds → owner ∈ t.keys) :
    (addAllKeywords ds t).keys = t.keys := by
  induction ds generalizing t with
  | nil => rfl
  | cons d ds ih =>
    have hkeys : (d.addKeywords t).keys = t.keys := by
      cases d with
      | keywords owner ks => exact Table.keys_insert_of_mem (h owner ks List.mem_cons_self) _
      | _ => rfl
    have hstep : addAllKeywords (d :: ds) t = addAllKeywords ds (d.addKeywords t) := rfl
    rw [hstep, ih fun owner ks hmem => hkeys ▸ h owner ks (List.mem_cons_of_mem _ hmem), hkeys]

theorem addAllKeywords_addAllKeywords (ds : List Definition) (t : KeywordTable) :
    addAllKeywords ds (addAllKeywords ds t) = addAllKeywords ds t := by
  refine Table.ext_get? (keys_addAllKeywords_of_subset fun owner ks hmem => ?_) fun owner => ?_
  · exact mem_keys_addAllKeywords.2 (.inr ⟨ks, hmem⟩)
  · rw [get?_addAllKeywords, get?_addAllKeywords, extended_extended]

end Keywords

theorem makeAll_makeAll {env env' : TypeEnv} {ds : List Definition}
    (h : makeAll env ds = .ok env') : makeAll env' ds = .ok env' := by
  rw [makeAll_of_holds fun d hd => makeAll_holds h hd, makeAll_keywords h,
    addAllKeywords_addAllKeywords, ← makeAll_keywords h]

end ParseForest
