import ParseForest.Grammar.Json
import ParseForest.Proofs.Json.Printing
import ParseForest.Proofs.Success

/-!
Grammars as they are written and read, with any library that reads what it has printed. A grammar
is read from what it is written as if its productions are without fault and the document does not
nest too deep; a grammar that was read from any document is such a grammar, since none of its parts
is written deeper than it was read. Main statements: `Json.Library.documented_plain`,
`read_write_iff`.
-/

namespace ParseForest

open Success

namespace Json

mutual
/-- How many arrays and objects lie within each other. -/
def nesting : Json → Nat
  | .array vs => nestingItems vs + 1
  | .object fs => nestingFields fs + 1
  | _ => 0

def nestingItems : List Json → Nat
  | [] => 0
  | v :: vs => max (nesting v) (nestingItems vs)

def nestingFields : List (Option String × Json) → Nat
  | [] => 0
  | (_, v) :: fs => max (nesting v) (nestingFields fs)
end

@[simp]
theorem nesting_text (s : String) : (text s).nesting = 0 := by simp [text, nesting]

@[simp]
theorem nesting_array (vs : List Json) : (array vs).nesting = nestingItems vs + 1 := by
  rw [nesting]

@[simp]
theorem nesting_tagged (kind : String) (v : Json) :
    (object [field kind v]).nesting = v.nesting + 1 := by
  simp [field, nesting, nestingFields]

@[simp]
theorem nestingItems_nil : nestingItems [] = 0 := by rw [nestingItems]

@[simp]
theorem nestingItems_cons (v : Json) (vs : List Json) :
    nestingItems (v :: vs) = max v.nesting (nestingItems vs) := by
  rw [nestingItems]

theorem nestingItems_le_iff {vs : List Json} {d : Nat} :
    nestingItems vs ≤ d ↔ ∀ v ∈ vs, v.nesting ≤ d := by
  induction vs with
  | nil => simp
  | cons v vs ih => rw [nestingItems_cons, Nat.max_le, ih, List.forall_mem_cons]

@[simp]
theorem legible_text (s : String) : (text s).Legible := by simp [text, Legible]

@[simp]
theorem legible_array (vs : List Json) : (array vs).Legible ↔ LegibleItems vs := by
  rw [Legible]

@[simp]
theorem legible_tagged (kind : String) (v : Json) :
    (object [field kind v]).Legible ↔ v.Legible := by
  simp [field, Legible, LegibleFields]

@[simp]
theorem legibleItems_nil : LegibleItems [] := by simp [LegibleItems]

@[simp]
theorem legibleItems_cons (v : Json) (vs : List Json) :
    LegibleItems (v :: vs) ↔ v.Legible ∧ LegibleItems vs := by
  rw [LegibleItems]

end Json

namespace Symbol

mutual
theorem legible_toJson (s : Symbol) : s.toJson.Legible := by
  match s with
  | .named c n => cases c <;> simp [toJson]
  | .literal _ | .caseless _ | .empty => simp [toJson]
  | .optional s | .start s | .labelled l s => simp [toJson, legible_toJson s]
  | .repeated r s => cases r <;> simp [toJson, legible_toJson s]
  | .separated r s ss => cases r <;> simp [toJson, legible_toJson s, legible_toJsonAll ss]
  | .applied n ss => simp [toJson, legible_toJsonAll ss]

theorem legible_toJsonAll (ss : List Symbol) : Json.LegibleItems (toJsonAll ss) := by
  match ss with
  | [] => simp [toJsonAll]
  | s :: ss => simp [toJsonAll, legible_toJson s, legible_toJsonAll ss]
end

mutual
theorem ofJson?_toJson (s : Symbol) {d : Nat} (h : s.toJson.nesting ≤ d) :
    ofJson? d s.toJson = some s := by
  match s with
  | .named c n =>
    have hn : (named c n).toJson.nesting = 1 := by cases c <;> simp [toJson]
    obtain ⟨d, rfl⟩ : ∃ e, d = e + 1 := ⟨d - 1, by omega⟩
    cases c <;> rfl
  | .literal t | .caseless t =>
    have hn : (literal t).toJson.nesting = 1 ∧ (caseless t).toJson.nesting = 1 := by simp [toJson]
    obtain ⟨d, rfl⟩ : ∃ e, d = e + 1 := ⟨d - 1, by omega⟩
    rfl
  | .empty => cases d <;> rfl
  | .optional s | .start s =>
    have hn : s.optional.toJson.nesting = s.toJson.nesting + 1 ∧
      s.start.toJson.nesting = s.toJson.nesting + 1 := by simp [toJson]
    obtain ⟨d, rfl⟩ : ∃ e, d = e + 1 := ⟨d - 1, by omega⟩
    have hs := ofJson?_toJson s (d := d) (by omega)
    simp [toJson, Json.field, ofJson?, hs]
  | .repeated r s =>
    have hn : (repeated r s).toJson.nesting = s.toJson.nesting + 1 := by
      cases r <;> simp [toJson]
    obtain ⟨d, rfl⟩ : ∃ e, d = e + 1 := ⟨d - 1, by omega⟩
    have hs := ofJson?_toJson s (d := d) (by omega)
    cases r <;> simp [toJson, Json.field, ofJson?, hs]
  | .separated r s ss =>
    have hn : (separated r s ss).toJson.nesting =
        max s.toJson.nesting (Json.nestingItems (toJsonAll ss) + 1) + 2 := by
      cases r <;> simp [toJson]
    obtain ⟨d, rfl⟩ : ∃ e, d = e + 3 := ⟨d - 3, by omega⟩
    have hs := ofJson?_toJson s (d := d + 1) (by omega)
    have hss := mapM_ofJson?_toJsonAll ss (d := d) (by omega)
    cases r <;> simp [toJson, Json.field, ofJson?, hs, hss]
  | .applied n ss =>
    have hn : (applied n ss).toJson.nesting = Json.nestingItems (toJsonAll ss) + 3 := by
      simp [toJson]
    obtain ⟨d, rfl⟩ : ∃ e, d = e + 3 := ⟨d - 3, by omega⟩
    have hss := mapM_ofJson?_toJsonAll ss (d := d) (by omega)
    simp [toJson, Json.field, Json.text, ofJson?, hss]
  | .labelled l s =>
    have hn : (labelled l s).toJson.nesting = s.toJson.nesting + 2 := by simp [toJson]
    obtain ⟨d, rfl⟩ : ∃ e, d = e + 2 := ⟨d - 2, by omega⟩
    have hs := ofJson?_toJson s (d := d) (by omega)
    simp [toJson, Json.field, Json.text, ofJson?, hs]

theorem mapM_ofJson?_toJsonAll (ss : List Symbol) {d : Nat}
    (h : Json.nestingItems (toJsonAll ss) ≤ d) : (toJsonAll ss).mapM (ofJson? d) = some ss := by
  match ss with
  | [] => rfl
  | s :: ss =>
    simp only [toJsonAll, Json.nestingItems_cons, Nat.max_le] at h
    simp [toJsonAll, ofJson?_toJson s h.1, mapM_ofJson?_toJsonAll ss h.2]
end

end Symbol

namespace Json

theorem nestingItems_le_of_mapM {α : Type} {read : Json → Option α} {write : α → Json} {d : Nat}
    (hd : ∀ j a, read j = some a → (write a).nesting ≤ d) {js : List Json} {as : List α}
    (h : js.mapM read = some as) : nestingItems (as.map write) ≤ d := by
  induction js generalizing as with
  | nil =>
    cases h
    simp
  | cons j js ih =>
    simp only [List.mapM_cons, Option.bind_eq_bind, Option.pure_def, Option.bind_eq_some_iff,
      Option.some.injEq] at h
    obtain ⟨a, hj, as, hjs, rfl⟩ := h
    exact Nat.max_le.2 ⟨hd j a hj, ih hjs⟩

end Json

namespace Symbol

theorem toJsonAll_eq_map (ss : List Symbol) : toJsonAll ss = ss.map toJson := by
  induction ss with
  | nil => rfl
  | cons s ss ih => rw [toJsonAll, ih, List.map_cons]

theorem nesting_toJson_le {d : Nat} {j : Json} {s : Symbol} (h : ofJson? d j = some s) :
    s.toJson.nesting ≤ d := by
  induction d using Nat.strongRecOn generalizing j s with
  | ind d ih =>
  have all {e : Nat} (he : e < d) {js : List Json} {ss : List Symbol}
      (h : js.mapM (ofJson? e) = some ss) : Json.nestingItems (toJsonAll ss) ≤ e := by
    rw [toJsonAll_eq_map]
    exact Json.nestingItems_le_of_mapM (fun _ _ => ih e he) h
  unfold ofJson? at h
  split at h
  case h_1 =>
    cases h
    simp [toJson]
  case h_3 => cases h
  case h_2 d kind content =>
    have named (f : String → Symbol) (hf : ∀ n, (f n).toJson.nesting = 1) {n? : Option String}
        (h : n?.map f = some s) : s.toJson.nesting ≤ d + 1 := by
      obtain ⟨n, -, rfl⟩ := Option.map_eq_some_iff.1 h
      rw [hf]
      omega
    have around (f : Symbol → Symbol) (hf : ∀ t, (f t).toJson.nesting = t.toJson.nesting + 1)
        (h : f <$> ofJson? d content = some s) : s.toJson.nesting ≤ d + 1 := by
      obtain ⟨t, ht, rfl⟩ := Option.map_eq_some_iff.1 h
      have := ih d d.lt_succ_self ht
      rw [hf]
      omega
    split at h
    case h_7 =>
      cases h
      simp [toJson]
    case h_8 | h_9 | h_10 | h_11 => exact around _ (fun t => by simp [toJson]) h
    case h_12 =>
      -- Symbols with two parts, the second of which may be a list.
      split at h
      case h_1 =>
        obtain ⟨t, ht, rfl⟩ := Option.map_eq_some_iff.1 h
        have := ih _ (by omega) ht
        simp only [toJson, Json.nesting_tagged, Json.nesting_array, Json.nestingItems_cons,
          Json.nestingItems_nil, Json.nesting_text]
        omega
      case h_2 | h_3 =>
        simp only [Option.bind_eq_bind, Option.bind_eq_some_iff, Option.pure_def,
          Option.some.injEq] at h
        obtain ⟨t, ht, ts, hts, rfl⟩ := h
        have := ih _ (by omega) ht
        have := all (by omega) hts
        simp only [toJson, Json.nesting_tagged, Json.nesting_array, Json.nestingItems_cons,
          Json.nestingItems_nil]
        omega
      case h_4 =>
        obtain ⟨ts, hts, rfl⟩ := Option.map_eq_some_iff.1 h
        have := all (by omega) hts
        simp only [toJson, Json.nesting_tagged, Json.nesting_array, Json.nestingItems_cons,
          Json.nestingItems_nil, Json.nesting_text]
        omega
      case h_5 => cases h
    case h_13 => cases h
    all_goals exact named _ (fun n => by simp [toJson]) h

end Symbol

namespace Production

theorem nesting_toJson (p : Production) :
    p.toJson.nesting =
      max p.defines.toJson.nesting (Json.nestingItems (Symbol.toJsonAll p.symbols) + 1) + 1 := by
  obtain ⟨defines, constructor, symbols, lexical⟩ := p
  cases constructor <;> cases lexical <;>
    simp [toJson, Json.nesting, Json.nestingFields, Json.field, Json.text]

theorem legible_toJson (p : Production) : p.toJson.Legible := by
  have hd := p.defines.legible_toJson
  have hs := Symbol.legible_toJsonAll p.symbols
  obtain ⟨defines, constructor, symbols, lexical⟩ := p
  cases constructor <;> cases lexical <;>
    simp_all [toJson, Json.Legible, Json.LegibleFields, Json.field, Json.text]

theorem ofJson?_toJson (p : Production) {d : Nat} (h : p.toJson.nesting ≤ d) :
    ofJson? d p.toJson = some p := by
  rw [nesting_toJson] at h
  obtain ⟨d, rfl⟩ : ∃ e, d = e + 2 := ⟨d - 2, by omega⟩
  have hd := p.defines.ofJson?_toJson (d := d + 1) (by omega)
  have hs := Symbol.mapM_ofJson?_toJsonAll p.symbols (d := d) (by omega)
  obtain ⟨defines, constructor, symbols, lexical⟩ := p
  cases constructor <;> cases lexical <;>
    simp_all [ofJson?, toJson, ofFields?, Json.optionalField?, Json.valuesOf, Json.field,
      Json.text, guard, constructorOfJson?, symbolsOfJson?, lexicalOfJson?, Json.text?, Json.bool?]

theorem nesting_toJson_le_of_ofFields? {d : Nat} {defines constructor symbols lexical : Option Json}
    {p : Production} (h : ofFields? (d + 1) defines constructor symbols lexical = some p) :
    p.toJson.nesting ≤ d + 2 := by
  simp only [ofFields?, Option.bind_eq_bind, Option.pure_def, Option.bind_eq_some_iff,
    Option.some.injEq] at h
  obtain ⟨j, -, s, hs, c, -, ss, hss, l, -, rfl⟩ := h
  have hdefines := Symbol.nesting_toJson_le hs
  have hsymbols : Json.nestingItems (Symbol.toJsonAll ss) ≤ d := by
    unfold symbolsOfJson? at hss
    split at hss
    next =>
      cases hss
      simp [Symbol.toJsonAll]
    next js =>
      rw [Symbol.toJsonAll_eq_map]
      exact Json.nestingItems_le_of_mapM (fun _ _ => Symbol.nesting_toJson_le) hss
    next => cases hss
  rw [nesting_toJson]
  dsimp only
  omega

/-- Two levels are needed in any case, since the right-hand side is written even where none was
read. -/
theorem nesting_toJson_le {d : Nat} {j : Json} {p : Production} (h : ofJson? (d + 2) j = some p) :
    p.toJson.nesting ≤ d + 2 := by
  cases j with
  | array vs =>
    simp only [ofJson?, Option.bind_eq_bind, Option.bind_eq_some_iff] at h
    obtain ⟨-, -, h⟩ := h
    exact nesting_toJson_le_of_ofFields? h
  | object fields =>
    simp only [ofJson?, Option.bind_eq_bind, Option.bind_eq_some_iff] at h
    obtain ⟨-, -, _, -, _, -, _, -, _, -, h⟩ := h
    exact nesting_toJson_le_of_ofFields? h
  | _ => cases h

end Production

namespace Grammar

variable {g : Grammar}

theorem nesting_toJson (g : Grammar) :
    g.toJson.nesting = Json.nestingItems (g.productions.map Production.toJson) + 2 := by
  simp [toJson, Json.nesting, Json.nestingFields, Json.field, Json.text]

theorem legible_toJson (g : Grammar) : g.toJson.Legible := by
  have hps : ∀ ps : List Production, Json.LegibleItems (ps.map Production.toJson) := by
    intro ps
    induction ps with
    | nil => simp
    | cons p ps ih => simp [p.legible_toJson, ih]
  simp [toJson, Json.Legible, Json.LegibleFields, Json.field, Json.text, hps]

theorem mapM_ofJson?_toJson {d : Nat} {ps : List Production}
    (h : Json.nestingItems (ps.map Production.toJson) ≤ d) :
    (ps.map Production.toJson).mapM (Production.ofJson? d) = some ps := by
  induction ps with
  | nil => rfl
  | cons p ps ih =>
    simp only [List.map_cons, Json.nestingItems_cons, Nat.max_le] at h
    simp [p.ofJson?_toJson h.1, ih h.2]

theorem readJson?_toJson {d : Nat} (h : g.toJson.nesting ≤ d) :
    readJson? d g.toJson = some (g.name, g.productions) := by
  rw [nesting_toJson] at h
  obtain ⟨d, rfl⟩ : ∃ e, d = e + 2 := ⟨d - 2, by omega⟩
  have hps : (g.productions.map Production.toJson).mapM (Production.ofJson? d) =
      some g.productions := mapM_ofJson?_toJson (by omega)
  simp [readJson?, toJson, Json.optionalField?, Json.valuesOf, Json.field, Json.text, guard,
    productionsOfJson?, Json.text?, hps]

theorem nestingItems_le_of_productions {d : Nat} {j : Json} {ps : List Production}
    (h : productionsOfJson? (d + 3) j = some ps) :
    Json.nestingItems (ps.map Production.toJson) ≤ d + 2 := by
  cases j with
  | array js => exact Json.nestingItems_le_of_mapM (fun _ _ => Production.nesting_toJson_le) h
  | _ => cases h

theorem nestingItems_le_of_readJson? {d : Nat} {j : Json} {name : String} {ps : List Production}
    (h : readJson? (d + 4) j = some (name, ps)) :
    Json.nestingItems (ps.map Production.toJson) ≤ d + 2 := by
  unfold readJson? at h
  split at h
  case h_1 hd =>
    obtain rfl := Nat.succ.inj hd
    simp only [Option.bind_eq_bind, Option.bind_eq_some_iff, Option.pure_def,
      Option.some.injEq, Prod.mk.injEq] at h
    obtain ⟨_, -, _, hps, -, rfl⟩ := h
    exact nestingItems_le_of_productions hps
  case h_2 hd =>
    obtain rfl := Nat.succ.inj hd
    simp only [Option.bind_eq_bind, Option.bind_eq_some_iff, Option.pure_def] at h
    obtain ⟨-, -, _, -, h⟩ := h
    split at h
    all_goals
      simp only [Option.bind_some, Option.bind_eq_some_iff, Option.some.injEq, Prod.mk.injEq] at h
    case h_1 =>
      obtain ⟨_, -, _, -, _, hps, -, rfl⟩ := h
      exact nestingItems_le_of_productions hps
    case h_2 =>
      obtain ⟨_, -, _, -, _, -, _, hps, -, rfl⟩ := h
      exact nestingItems_le_of_productions hps
  case h_3 => cases h

theorem addChecked_of_faultless {index : Nat} {ps : List Production}
    (hnew : (g.productions ++ ps).Nodup) (hps : ∀ p ∈ ps, p.fault? = none) :
    g.addChecked index ps = .ok ⟨g.name, g.productions ++ ps, hnew⟩ := by
  induction ps generalizing g index with
  | nil => simp [addChecked]
  | cons p ps ih =>
    have hp : p ∉ g.productions := fun hp =>
      (List.nodup_append.1 hnew).2.2 p hp p (by simp) rfl
    have hadd : (g.add p).1.productions = g.productions ++ [p] := by simp [add, hp]
    simp only [addChecked, hps p (by simp)]
    rw [ih (by simpa [hadd] using hnew) (fun q hq => hps q (by simp [hq]))]
    simp [add, hp]

theorem mem_of_addChecked {index : Nat} {ps : List Production} {g' : Grammar}
    (h : g.addChecked index ps = .ok g') {p : Production} (hp : p ∈ g'.productions) :
    p ∈ g.productions ∨ p ∈ ps ∧ p.fault? = none := by
  induction ps generalizing g index with
  | nil =>
    cases h
    exact .inl hp
  | cons q ps ih =>
    simp only [addChecked] at h
    split at h
    next => cases h
    next hq =>
      obtain hp | ⟨hp, hfault⟩ := ih h
      · have : p ∈ g.productions ∨ p = q := by
          unfold add at hp
          split at hp <;> simp_all
        obtain hp | rfl := this
        · exact .inl hp
        · exact .inr ⟨by simp, hq⟩
      · exact .inr ⟨by simp [hp], hfault⟩

end Grammar

/-- What a library of JSON is known to do: documents are read as they were before printing, and the
limit on their depth. -/
structure Json.Library.Documented (lib : Json.Library) : Prop where
  parse_print : ∀ v : Json, v.Legible → v.nesting ≤ lib.limit → lib.parse (lib.print v) = some v
  limit_eq : lib.limit = 127

theorem Json.Library.documented_plain : Json.Library.plain.Documented where
  parse_print v hv _ := by simp [plain, parse_render hv]
  limit_eq := rfl

namespace Grammar

section Library

variable {lib : Json.Library} (hlib : lib.Documented)
include hlib

theorem read_write {g : Grammar} (hfault : ∀ p ∈ g.productions, p.fault? = none)
    (hdepth : g.toJson.nesting ≤ 127) : read lib (g.write lib) = .ok g := by
  rw [← hlib.limit_eq] at hdepth
  have hread : (lib.parse (g.write lib) >>= readJson? lib.limit) =
      some (g.name, g.productions) := by
    rw [write, hlib.parse_print _ g.legible_toJson hdepth]
    exact readJson?_toJson hdepth
  rw [read, hread]
  exact addChecked_of_faultless (by simpa [empty] using g.nodup) hfault

theorem bounded_of_read {g : Grammar} {text : String} (h : read lib text = .ok g) :
    (∀ p ∈ g.productions, p.fault? = none) ∧ g.toJson.nesting ≤ 127 := by
  unfold read at h
  split at h
  case h_1 => cases h
  case h_2 name ps hread =>
    obtain ⟨j, -, hj⟩ := Option.bind_eq_some_iff.1 hread
    rw [hlib.limit_eq] at hj
    have hdepth := Json.nestingItems_le_iff.1 (nestingItems_le_of_readJson? (d := 123) hj)
    have hmem {p : Production} (hp : p ∈ g.productions) : p ∈ ps ∧ p.fault? = none :=
      (mem_of_addChecked h hp).resolve_left (by simp [empty])
    refine ⟨fun p hp => (hmem hp).2, ?_⟩
    rw [nesting_toJson]
    refine Nat.add_le_add_right (Json.nestingItems_le_iff.2 ?_) 2
    intro v hv
    obtain ⟨p, hp, rfl⟩ := List.mem_map.1 hv
    exact hdepth _ (List.mem_map_of_mem (hmem hp).1)

/-- A grammar comes back from what it is written as exactly if its productions are without fault
and it is not written too deep, and so does every grammar that was read from some text. -/
theorem read_write_iff (g : Grammar) :
    (read lib (g.write lib) = .ok g ↔
      (∀ p ∈ g.productions, p.fault? = none) ∧ g.toJson.nesting ≤ 127) ∧
    (read lib (g.write lib) = .ok g ↔ ∃ text, read lib text = .ok g) :=
  ⟨⟨bounded_of_read hlib, fun ⟨hfault, hdepth⟩ => read_write hlib hfault hdepth⟩,
    ⟨fun h => ⟨_, h⟩, fun ⟨_, h⟩ =>
      read_write hlib (bounded_of_read hlib h).1 (bounded_of_read hlib h).2⟩⟩

end Library

def accented : Grammar where
  name := "\u2200 \"\\\"\n\x01"
  productions := [⟨.named .lexical "😀\t", none, [], true⟩,
    ⟨.labelled "é" (.named .sort "E"), some "\"add\"",
      [.separated .plus (.separated .star (.named .sort "E") [.literal ",", .named .layout "\x7f"])
        [.caseless "\\", .empty], .optional (.applied "P" [.named .keywords "K", .literal ""])],
      false⟩,
    ⟨.repeated .star (.start (.named .sort "E")), none, [], false⟩]
  nodup := by decide

theorem read_write_accented :
    Json.Library.plain.Documented ∧ (∀ p ∈ accented.productions, p.fault? = none) ∧
      accented.toJson.nesting ≤ 127 ∧ read .plain (accented.write .plain) = .ok accented := by
  have hfault : ∀ p ∈ accented.productions, p.fault? = none := by decide
  have hdepth : accented.toJson.nesting ≤ 127 := by decide +kernel
  exact ⟨Json.Library.documented_plain, hfault, hdepth,
    (read_write_iff Json.Library.documented_plain accented).1.2 ⟨hfault, hdepth⟩⟩

end Grammar

end ParseForest
