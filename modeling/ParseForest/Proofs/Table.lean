import ParseForest.Table

/-!
Tables compared by keys and look-up, and many entries put one after the other, of which the last
one for a key counts. Main statements: `Table.ext_get?`, `Table.get?_insertAll`,
`Table.keys_insertAll`, `Table.insertAll_insertAll`.
-/

namespace ParseForest

variable {κ ν : Type} [DecidableEq κ]

namespace Entries

theorem find?_eq_none {k : κ} {es : List (κ × ν)} (h : k ∉ es.map (·.1)) : find? k es = none :=
  Option.not_isSome_iff_eq_none.1 fun hsome => h (isSome_find?_iff.1 hsome)

theorem find?_append (k : κ) (es es' : List (κ × ν)) :
    find? k (es ++ es') = (find? k es).or (find? k es') := by
  induction es with
  | nil => simp [find?]
  | cons e es ih =>
    by_cases h : e.1 = k
    · simp [find?, h]
    · simp [find?, h, ih]

theorem eq_of_find? {es es' : List (κ × ν)} (hnodup : (es.map (·.1)).Nodup)
    (hkeys : es.map (·.1) = es'.map (·.1)) (h : ∀ k, find? k es = find? k es') : es = es' := by
  induction es generalizing es' with
  | nil => exact (List.map_eq_nil_iff.1 hkeys.symm).symm
  | cons e es ih =>
    cases es' with
    | nil => simp at hkeys
    | cons e' es' =>
      obtain ⟨hkey, hrest⟩ := List.cons.inj hkeys
      obtain ⟨hnew, hnodup⟩ := List.nodup_cons.1 hnodup
      have hvalue : e.2 = e'.2 := by simpa [find?, hkey] using h e'.1
      have htail : ∀ k, find? k es = find? k es' := by
        intro k
        by_cases hk : e.1 = k
        · subst hk
          rw [find?_eq_none hnew, find?_eq_none (hrest ▸ hnew)]
        · have hk' : e'.1 ≠ k := fun h' => hk (hkey.trans h')
          simpa [find?, hk, hk'] using h k
      rw [Prod.ext hkey hvalue, ih hnodup hrest htail]

theorem mem_iff_find? {es : List (κ × ν)} (hnodup : (es.map (·.1)).Nodup) {k : κ} {v : ν} :
    (k, v) ∈ es ↔ find? k es = some v := by
  induction es with
  | nil => simp [find?]
  | cons e es ih =>
    obtain ⟨hnew, hnodup⟩ := List.nodup_cons.1 hnodup
    rw [List.mem_cons, ih hnodup]
    by_cases h : e.1 = k
    · subst h
      simp [find?, find?_eq_none hnew, Prod.ext_iff, eq_comm]
    · simp [find?, h, Prod.ext_iff, eq_comm (a := k)]

theorem mem_of_find? {es : List (κ × ν)} {k : κ} {v : ν} (h : find? k es = some v) :
    (k, v) ∈ es := by
  induction es with
  | nil => cases h
  | cons e es ih =>
    unfold find? at h
    split at h
    next hk =>
      cases hk
      cases h
      exact List.mem_cons_self
    next => exact List.mem_cons_of_mem e (ih h)

theorem put_of_find?_eq_none {k : κ} {es : List (κ × ν)} (h : find? k es = none) (v : ν) :
    put k v es = es ++ [(k, v)] := by
  induction es with
  | nil => rfl
  | cons e es ih =>
    unfold find? at h
    split at h
    next => cases h
    next hk => rw [put, if_neg hk, ih h, List.cons_append]

end Entries

theorem eraseDups_of_nodup {l : List κ} (h : l.Nodup) : l.eraseDups = l := by
  induction l with
  | nil => rfl
  | cons a l ih =>
    obtain ⟨ha, hl⟩ := List.nodup_cons.1 h
    have hrest : l.filter (fun b => !b == a) = l :=
      List.filter_eq_self.2 fun b hb => by simpa using ne_of_mem_of_not_mem hb ha
    rw [List.eraseDups_cons, hrest, ih hl]

theorem eraseDups_concat (l : List κ) (a : κ) :
    (l ++ [a]).eraseDups = if a ∈ l then l.eraseDups else l.eraseDups ++ [a] := by
  rw [List.eraseDups_append]
  split
  next h => simp [List.removeAll, h]
  next h => simp [List.removeAll, h, List.eraseDups_cons]

namespace Table

theorem mem_keys_iff {t : Table κ ν} {k : κ} : k ∈ t.keys ↔ ∃ v, t.get? k = some v := by
  rw [← contains_iff, contains, Option.isSome_iff_exists]

omit [DecidableEq κ] in
theorem size_ne_zero_of_mem {t : Table κ ν} {k : κ} (h : k ∈ t.keys) : t.size ≠ 0 := by
  intro hs
  rw [keys, List.eq_nil_of_length_eq_zero hs] at h
  cases h

theorem entries_insert_of_new {t : Table κ ν} {k : κ} (h : t.get? k = none) (v : ν) :
    (t.insert k v).entries = t.entries ++ [(k, v)] :=
  Entries.put_of_find?_eq_none h v

theorem ext_get? {t t' : Table κ ν} (hkeys : t.keys = t'.keys)
    (h : ∀ k, t.get? k = t'.get? k) : t = t' := by
  have hentries : t.entries = t'.entries := Entries.eq_of_find? t.nodup hkeys h
  cases t
  cases t'
  cases hentries
  rfl

theorem keys_insert_of_mem {t : Table κ ν} {k : κ} (h : k ∈ t.keys) (v : ν) :
    (t.insert k v).keys = t.keys := by
  rw [keys_insert, if_pos h]

theorem mem_keys_insert {t : Table κ ν} {k k' : κ} {v : ν} :
    k' ∈ (t.insert k v).keys ↔ k' ∈ t.keys ∨ k' = k := by
  rw [keys_insert]
  by_cases h : k ∈ t.keys
  · rw [if_pos h]
    constructor
    · exact .inl
    · rintro (h' | rfl)
      · exact h'
      · exact h
  · simp [h]

def insertAll (t : Table κ ν) (es : List (κ × ν)) : Table κ ν :=
  es.foldl (fun t e => t.insert e.1 e.2) t

theorem insertAll_append (t : Table κ ν) (es es' : List (κ × ν)) :
    t.insertAll (es ++ es') = (t.insertAll es).insertAll es' :=
  List.foldl_append

theorem get?_insertAll (t : Table κ ν) (es : List (κ × ν)) (k : κ) :
    (t.insertAll es).get? k = (Entries.find? k es.reverse).or (t.get? k) := by
  induction es generalizing t with
  | nil => simp [insertAll, Entries.find?]
  | cons e es ih =>
    have hstep : t.insertAll (e :: es) = (t.insert e.1 e.2).insertAll es := rfl
    rw [hstep, ih, get?_insert, List.reverse_cons, Entries.find?_append]
    by_cases h : e.1 = k
    · simp [Entries.find?, h]
    · simp [Entries.find?, h]

theorem mem_keys_insertAll {t : Table κ ν} {es : List (κ × ν)} {k : κ} :
    k ∈ (t.insertAll es).keys ↔ k ∈ t.keys ∨ ∃ e ∈ es, e.1 = k := by
  induction es generalizing t with
  | nil => simp [insertAll]
  | cons e es ih =>
    have hstep : t.insertAll (e :: es) = (t.insert e.1 e.2).insertAll es := rfl
    rw [hstep, ih, mem_keys_insert]
    simp only [List.mem_cons, exists_eq_or_imp, or_assoc, eq_comm (a := k)]

theorem keys_insertAll_of_subset {t : Table κ ν} {es : List (κ × ν)}
    (h : ∀ e ∈ es, e.1 ∈ t.keys) : (t.insertAll es).keys = t.keys := by
  induction es generalizing t with
  | nil => rfl
  | cons e es ih =>
    obtain ⟨he, hes⟩ := List.forall_mem_cons.1 h
    have hkeys : (t.insert e.1 e.2).keys = t.keys := keys_insert_of_mem he e.2
    have hstep : t.insertAll (e :: es) = (t.insert e.1 e.2).insertAll es := rfl
    rw [hstep, ih fun e' he' => hkeys ▸ hes e' he', hkeys]

theorem keys_insertAll (t : Table κ ν) (es : List (κ × ν)) :
    (t.insertAll es).keys = (t.keys ++ es.map (·.1)).eraseDups := by
  induction es generalizing t with
  | nil =>
    have hkeys : t.keys.eraseDups = t.keys := eraseDups_of_nodup t.nodup
    rw [List.map_nil, List.append_nil, hkeys, insertAll, List.foldl_nil]
  | cons e es ih =>
    have hstep : t.insertAll (e :: es) = (t.insert e.1 e.2).insertAll es := rfl
    rw [hstep, ih, keys_insert, List.map_cons]
    split
    next h =>
      have hnew : (e.1 :: es.map (·.1)).removeAll t.keys = (es.map (·.1)).removeAll t.keys := by
        simp [List.removeAll, h]
      rw [List.eraseDups_append, List.eraseDups_append, hnew]
    next => rw [List.append_assoc, List.singleton_append]

theorem insertAll_insertAll (t : Table κ ν) (es : List (κ × ν)) :
    (t.insertAll es).insertAll es = t.insertAll es := by
  refine ext_get? (keys_insertAll_of_subset fun e he => ?_) fun k => ?_
  · exact mem_keys_insertAll.2 (.inr ⟨e, he, rfl⟩)
  · rw [get?_insertAll, get?_insertAll, ← Option.or_assoc, Option.or_self]

theorem insert_of_get? {t : Table κ ν} {k : κ} {v : ν} (h : t.get? k = some v) :
    t.insert k v = t := by
  refine ext_get? (keys_insert_of_mem (mem_keys_iff.2 ⟨v, h⟩) v) fun k' => ?_
  rw [get?_insert]
  split
  next hk => rw [← hk, h]
  next => rfl

theorem insertAll_of_get? {t : Table κ ν} {es : List (κ × ν)}
    (h : ∀ e ∈ es, t.get? e.1 = some e.2) : t.insertAll es = t := by
  induction es with
  | nil => rfl
  | cons e es ih =>
    obtain ⟨he, hes⟩ := List.forall_mem_cons.1 h
    have hstep : t.insertAll (e :: es) = (t.insert e.1 e.2).insertAll es := rfl
    rw [hstep, insert_of_get? he, ih hes]

end Table

end ParseForest
