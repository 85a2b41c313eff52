import ParseForest.Proofs.Json.Scalars

/-!
Documents are read as they were before printing, whatever the level at which they are printed. The
parser goes through a text with a decreasing amount of fuel, and so does the induction. Main
statement: `parse_render`.
-/

namespace ParseForest.Json

mutual
/-- What every printer shows in full: no string lacks its text, and there are no numbers, which need
not keep their spelling. -/
def Legible : Json → Prop
  | .null | .bool _ => True
  | .number _ => False
  | .string s => s.isSome
  | .array vs => LegibleItems vs
  | .object fs => LegibleFields fs

def LegibleItems : List Json → Prop
  | [] => True
  | v :: vs => Legible v ∧ LegibleItems vs

def LegibleFields : List (Option String × Json) → Prop
  | [] => True
  | (k, v) :: fs => k.isSome ∧ Legible v ∧ LegibleFields fs
end

theorem skipBlanks_lineBreak (level : Nat) (cs : List Char) :
    skipBlanks (lineBreak level ++ cs) = skipBlanks cs := by
  refine List.dropWhile_append_of_pos fun c hc => ?_
  rcases List.mem_cons.1 hc with rfl | hc
  · decide
  · rw [List.eq_of_mem_replicate hc]
    decide

theorem skipBlanks_cons {c : Char} (h : isBlank c = false) (cs : List Char) :
    skipBlanks (c :: cs) = c :: cs :=
  List.dropWhile_cons_of_neg (by simp [h])

theorem value_lineBreak (fuel level : Nat) (cs : List Char) :
    value fuel (lineBreak level ++ cs) = value fuel cs := by
  rw [value.eq_def, value.eq_def fuel cs, skipBlanks_lineBreak]

theorem value_scalar {c : Char} (hb : isBlank c = false) (ha : c ≠ '[') (ho : c ≠ '{')
    (fuel : Nat) (cs : List Char) : value (fuel + 1) (c :: cs) = scalar (c :: cs) := by
  rw [value.eq_def, skipBlanks_cons hb]
  simp [ha, ho]

section Steps

variable {fuel : Nat} {cs after next rest : List Char} {k : Option String} {v : Json}
  {vs : List Json} {fs : List (Option String × Json)}

theorem value_array (hclose : ∀ r, skipBlanks cs ≠ ']' :: r)
    (h : items fuel cs = some (vs, rest)) :
    value (fuel + 1) ('[' :: cs) = some (.array vs, rest) := by
  rw [value.eq_2 _ _ cs (skipBlanks_cons (by decide) cs)]
  split
  next r hr => exact absurd hr (hclose r)
  next => simp [h]

theorem items_last (hv : value fuel cs = some (v, after)) (h : skipBlanks after = ']' :: rest) :
    items (fuel + 1) cs = some ([v], rest) := by
  simp [items, hv, h]

theorem items_more (hv : value fuel cs = some (v, after)) (h : skipBlanks after = ',' :: next)
    (hvs : items fuel next = some (vs, rest)) : items (fuel + 1) cs = some (v :: vs, rest) := by
  simp [items, hv, h, hvs]

theorem value_object (hclose : ∀ r, skipBlanks cs ≠ '}' :: r)
    (h : fields fuel cs = some (fs, rest)) :
    value (fuel + 1) ('{' :: cs) = some (.object fs, rest) := by
  rw [value.eq_3 _ _ cs (skipBlanks_cons (by decide) cs)]
  split
  next r hr => exact absurd hr (hclose r)
  next => simp [h]

theorem fields_last (hk : key cs = some (k, next)) (hv : value fuel next = some (v, after))
    (h : skipBlanks after = '}' :: rest) : fields (fuel + 1) cs = some ([(k, v)], rest) := by
  simp [fields, hk, hv, h]

theorem fields_more {more : List Char} (hk : key cs = some (k, next))
    (hv : value fuel next = some (v, after)) (h : skipBlanks after = ',' :: more)
    (hfs : fields fuel more = some (fs, rest)) :
    fields (fuel + 1) cs = some ((k, v) :: fs, rest) := by
  simp [fields, hk, hv, h, hfs]

end Steps

theorem exists_render_eq_cons {v : Json} (h : v.Legible) (level : Nat) :
    ∃ c cs, v.render level = c :: cs ∧ isBlank c = false ∧ c ≠ ']' := by
  cases v with
  | null => exact ⟨_, _, rfl, by decide⟩
  | bool b => cases b <;> exact ⟨_, _, rfl, by decide⟩
  | number lexeme => cases h
  | string s => exact ⟨_, _, rfl, by decide⟩
  | array vs => cases vs <;> exact ⟨_, _, rfl, by decide⟩
  | object fs => rcases fs with _ | ⟨⟨k, v⟩, fs⟩ <;> exact ⟨_, _, rfl, by decide⟩

theorem key_render (s : String) (cs : List Char) :
    key (renderString s ++ ':' :: cs) = some (some s, cs) := by
  simp [key, renderString, skipBlanks, isBlank, stringText_escaped]

theorem items_lineBreak (fuel level : Nat) (cs : List Char) :
    items fuel (lineBreak level ++ cs) = items fuel cs := by
  rw [items.eq_def, items.eq_def fuel cs]
  simp only [value_lineBreak]

theorem fields_lineBreak (fuel level : Nat) (cs : List Char) :
    fields fuel (lineBreak level ++ cs) = fields fuel cs := by
  rw [fields.eq_def, fields.eq_def fuel cs]
  simp only [key, skipBlanks_lineBreak]

theorem value_space (fuel : Nat) (cs : List Char) : value fuel (' ' :: cs) = value fuel cs := by
  have h : skipBlanks (' ' :: cs) = skipBlanks cs := List.dropWhile_cons_of_pos (by decide)
  rw [value.eq_def, value.eq_def fuel cs, h]

/-- With this fuel everything is read back that is printed with half as many characters. -/
structure ReadsBack (fuel : Nat) : Prop where
  value : ∀ (v : Json) (level : Nat) (rest : List Char), v.Legible →
    2 * (v.render level).length ≤ fuel → value fuel (v.render level ++ rest) = some (v, rest)
  items : ∀ (v : Json) (vs : List Json) (level : Nat) (rest : List Char),
    LegibleItems (v :: vs) →
    2 * ((v.render (level + 1)).length + (renderItems (level + 1) vs).length) + 2 ≤ fuel →
    items fuel (v.render (level + 1) ++
      (renderItems (level + 1) vs ++ (lineBreak level ++ ']' :: rest))) = some (v :: vs, rest)
  fields : ∀ (k : String) (v : Json) (fs : List (Option String × Json)) (level : Nat)
    (rest : List Char), v.Legible → LegibleFields fs →
    2 * ((v.render (level + 1)).length + (renderFields (level + 1) fs).length) + 2 ≤ fuel →
    fields fuel (renderString k ++ ':' :: ' ' :: (v.render (level + 1) ++
      (renderFields (level + 1) fs ++ (lineBreak level ++ '}' :: rest)))) =
        some ((some k, v) :: fs, rest)

namespace ReadsBack

variable {fuel : Nat} {rest : List Char} (h : ReadsBack fuel)
include h

theorem array {v : Json} {vs : List Json} (hvs : LegibleItems (v :: vs)) (level : Nat)
    (hfuel : 2 * (render level (.array (v :: vs))).length ≤ fuel + 1) :
    Json.value (fuel + 1) (render level (.array (v :: vs)) ++ rest) =
      some (.array (v :: vs), rest) := by
  obtain ⟨c, cs, hc, hblank, hclose⟩ := exists_render_eq_cons hvs.1 (level + 1)
  have hread := h.items v vs level rest hvs (by simp [render, lineBreak] at hfuel; omega)
  rw [← items_lineBreak fuel (level + 1)] at hread
  simp only [render, List.cons_append, List.append_assoc, List.nil_append]
  refine value_array (fun r hr => ?_) hread
  rw [skipBlanks_lineBreak, hc, List.cons_append, skipBlanks_cons hblank] at hr
  exact hclose (List.cons.inj hr).1

theorem object {k : String} {v : Json} {fs : List (Option String × Json)} (hv : v.Legible)
    (hfs : LegibleFields fs) (level : Nat)
    (hfuel : 2 * (render level (.object ((some k, v) :: fs))).length ≤ fuel + 1) :
    Json.value (fuel + 1) (render level (.object ((some k, v) :: fs)) ++ rest) =
      some (.object ((some k, v) :: fs), rest) := by
  have hread := h.fields k v fs level rest hv hfs (by simp [render, lineBreak] at hfuel; omega)
  rw [← fields_lineBreak fuel (level + 1)] at hread
  simp only [render, renderText, Option.getD_some, List.cons_append, List.append_assoc,
    List.nil_append]
  refine value_object (fun r hr => ?_) hread
  rw [skipBlanks_lineBreak, renderString, List.cons_append, skipBlanks_cons (by decide)] at hr
  exact absurd (List.cons.inj hr).1 (by decide)

theorem value_succ {v : Json} (hv : v.Legible) (level : Nat)
    (hfuel : 2 * (v.render level).length ≤ fuel + 1) :
    Json.value (fuel + 1) (v.render level ++ rest) = some (v, rest) := by
  match v with
  | .null => exact value_scalar (by decide) (by decide) (by decide) _ _
  | .bool true => exact value_scalar (by decide) (by decide) (by decide) _ _
  | .bool false => exact value_scalar (by decide) (by decide) (by decide) _ _
  | .string (some s) =>
    exact (value_scalar (by decide) (by decide) (by decide) _ _).trans (scalar_string s rest)
  | .array [] => simp [render, Json.value, skipBlanks, isBlank]
  | .array (v :: vs) => exact h.array hv level hfuel
  | .object [] => simp [render, Json.value, skipBlanks, isBlank]
  | .object ((some k, v) :: fs) => exact h.object hv.2.1 hv.2.2 level hfuel

theorem items_succ {v : Json} {vs : List Json} (hvs : LegibleItems (v :: vs)) (level : Nat)
    (hfuel : 2 * ((v.render (level + 1)).length + (renderItems (level + 1) vs).length) + 2
      ≤ fuel + 1) :
    Json.items (fuel + 1) (v.render (level + 1) ++
      (renderItems (level + 1) vs ++ (lineBreak level ++ ']' :: rest))) = some (v :: vs, rest) := by
  have hv := h.value v (level + 1)
    (renderItems (level + 1) vs ++ (lineBreak level ++ ']' :: rest)) hvs.1 (by omega)
  cases vs with
  | nil => exact items_last hv (skipBlanks_lineBreak level _)
  | cons w ws =>
    have hws := h.items w ws level rest hvs.2 (by simp [renderItems, lineBreak] at hfuel; omega)
    rw [← items_lineBreak fuel (level + 1)] at hws
    simp only [renderItems, List.cons_append, List.append_assoc] at hv ⊢
    exact items_more hv (skipBlanks_cons (by decide) _) hws

theorem fields_succ {k : String} {v : Json} {fs : List (Option String × Json)} (hv : v.Legible)
    (hfs : LegibleFields fs) (level : Nat)
    (hfuel : 2 * ((v.render (level + 1)).length + (renderFields (level + 1) fs).length) + 2
      ≤ fuel + 1) :
    Json.fields (fuel + 1) (renderString k ++ ':' :: ' ' :: (v.render (level + 1) ++
      (renderFields (level + 1) fs ++ (lineBreak level ++ '}' :: rest)))) =
        some ((some k, v) :: fs, rest) := by
  have hread := h.value v (level + 1)
    (renderFields (level + 1) fs ++ (lineBreak level ++ '}' :: rest)) hv (by omega)
  rw [← value_space] at hread
  match fs with
  | [] => exact fields_last (key_render k _) hread (skipBlanks_lineBreak level _)
  | (some l, w) :: ws =>
    have hws := h.fields l w ws level rest hfs.2.1 hfs.2.2
      (by simp [renderFields, lineBreak] at hfuel; omega)
    rw [← fields_lineBreak fuel (level + 1)] at hws
    simp only [renderFields, renderText, Option.getD_some, List.cons_append,
      List.append_assoc] at hread ⊢
    exact fields_more (key_render k _) hread (skipBlanks_cons (by decide) _) hws

end ReadsBack

theorem length_render_pos {v : Json} (h : v.Legible) (level : Nat) :
    0 < (v.render level).length := by
  obtain ⟨c, cs, hc, _⟩ := exists_render_eq_cons h level
  simp [hc]

theorem readsBack (fuel : Nat) : ReadsBack fuel := by
  induction fuel with
  | zero =>
    constructor
    · intro v level rest hv hfuel
      have := length_render_pos hv level
      omega
    · intros
      omega
    · intros
      omega
  | succ fuel ih =>
    constructor
    · intro v level rest hv hfuel
      exact ih.value_succ hv level hfuel
    · intro v vs level rest hvs hfuel
      exact ih.items_succ hvs level hfuel
    · intro k v fs level rest hv hfs hfuel
      exact ih.fields_succ hv hfs level hfuel

theorem parse_render {v : Json} (h : v.Legible) (level : Nat) :
    parse (v.render level) = some v := by
  have hread := (readsBack (2 * (v.render level).length + 2)).value v level [] h (by omega)
  rw [List.append_nil] at hread
  rw [parse, hread]
  rfl

end ParseForest.Json
