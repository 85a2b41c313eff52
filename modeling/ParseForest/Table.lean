/-!
Tables with distinct keys in the order in which the keys first came. A new value for a key that is
there takes the place of the old one. Main statements: `get?_insert`, `keys_insert`.
-/

namespace ParseForest

namespace Entries

variable {κ ν : Type} [DecidableEq κ]

def find? (k : κ) : List (κ × ν) → Option ν
  | [] => none
  | e :: es => if e.1 = k then some e.2 else find? k es

def put (k : κ) (v : ν) : List (κ × ν) → List (κ × ν)
  | [] => [(k, v)]
  | e :: es => if e.1 = k then (k, v) :: es else e :: put k v es

theorem find?_put (k k' : κ) (v : ν) (es : List (κ × ν)) :
    find? k' (put k v es) = if k = k' then some v else find? k' es := by
  induction es with
  | nil => rfl
  | cons e es ih =>
    unfold put
    split
    · grind [find?]
    · grind [find?]

theorem keys_put (k : κ) (v : ν) (es : List (κ × ν)) :
    (put k v es).map (·.1) =
      if k ∈ es.map (·.1) then es.map (·.1) else es.map (·.1) ++ [k] := by
  induction es with
  | nil => rfl
  | cons e es ih =>
    unfold put
    split
    next h => simp [h]
    next h =>
      have : ¬ k = e.1 := fun h' => h h'.symm
      simp only [List.map_cons, ih, List.mem_cons, this, false_or]
      split <;> rfl

theorem isSome_find?_iff {k : κ} {es : List (κ × ν)} :
    (find? k es).isSome ↔ k ∈ es.map (·.1) := by
  induction es with
  | nil => simp [find?]
  | cons e es ih =>
    unfold find?
    split
    next h => simp [h]
    next h =>
      have : ¬ k = e.1 := fun h' => h h'.symm
      simp only [List.map_cons, List.mem_cons, this, false_or, ih]

end Entries

structure Table (κ ν : Type) where
  entries : List (κ × ν)
  nodup : (entries.map (·.1)).Nodup

namespace Table

variable {κ ν : Type} [DecidableEq κ]

def empty : Table κ ν := ⟨[], .nil⟩

def keys (t : Table κ ν) : List κ := t.entries.map (·.1)

def size (t : Table κ ν) : Nat := t.entries.length

def get? (t : Table κ ν) (k : κ) : Option ν := Entries.find? k t.entries

def contains (t : Table κ ν) (k : κ) : Bool := (t.get? k).isSome

def insert (t : Table κ ν) (k : κ) (v : ν) : Table κ ν where
  entries := Entries.put k v t.entries
  nodup := by
    rw [Entries.keys_put]
    split
    · exact t.nodup
    next h =>
      refine List.nodup_append.2 ⟨t.nodup, by simp, ?_⟩
      rintro a ha b hb rfl
      exact h (List.mem_singleton.1 hb ▸ ha)

theorem get?_insert (t : Table κ ν) (k k' : κ) (v : ν) :
    (t.insert k v).get? k' = if k = k' then some v else t.get? k' :=
  Entries.find?_put ..

theorem contains_iff {t : Table κ ν} {k : κ} : t.contains k = true ↔ k ∈ t.keys :=
  Entries.isSome_find?_iff

theorem keys_insert (t : Table κ ν) (k : κ) (v : ν) :
    (t.insert k v).keys = if k ∈ t.keys then t.keys else t.keys ++ [k] :=
  Entries.keys_put ..

end Table

end ParseForest
