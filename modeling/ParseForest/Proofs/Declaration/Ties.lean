import ParseForest.Proofs.Declaration.Replacement

/-!
Declarations with a tied reading inside. Only toplevels and declarations are looked at for them;
what is tied further down is taken for a defect, or for a block of keyword formals that is absent.
Main statement: `collect_of_tied`.
-/

namespace ParseForest

open Success ParseForest.Tree

namespace Declaration

variable {r q p : Role} {t t' u u' s s' : Tree} {i : Nat}

/-- The second tree is a choice between tied readings, in place of the first one. -/
structure TiedAs (u u' : Tree) : Prop where
  sort : u'.sort = u.sort
  constructor : u'.constructor = Registry.ambiguityName
  body : ∃ alts, u'.body = .ambiguity alts ∧ 2 ≤ alts.length

def Role.what : Role → String
  | .toplevel => "toplevel"
  | .declaration => "declaration"
  | .reference => "user type"
  | .name => "qualified name"
  | .commonBlock => "keyword parameters"
  | .variant => "variant"
  | .variantBlock => "keyword formals"
  | .formal => "keyword formal"
  | .argument => "type argument"
  | .type => "type"
  | .structured => "structured type"
  | .typeVar => "type variable"

def Role.isBlock : Role → Bool
  | .commonBlock | .variantBlock => true
  | _ => false

def Role.tieError (u' : Tree) : Role → Error
  | .toplevel | .declaration => .ambiguousDeclaration u'.span
  | r => .defect (.malformed r.what u'.sort u'.constructor)

namespace TiedAs

variable (h : TiedAs u u')
include h

theorem isAmbiguity : u'.isAmbiguity = true := by
  obtain ⟨alts, hbody, -⟩ := h.body
  rw [Tree.isAmbiguity, hbody]
  rfl

theorem nodeOr (i : Nat) (what : String) : u'.nodeOr i what = u'.malformed what := by
  obtain ⟨alts, hbody, -⟩ := h.body
  rw [nodeOr_eq, Tree.nodeArg?, Tree.arg?, Tree.args, hbody]
  rfl

theorem not_is {sort constructor : String} (hne : constructor ≠ Registry.ambiguityName) :
    u'.is sort constructor = false := by
  rw [Tree.is, h.constructor, beq_eq_false_iff_ne.2 hne.symm, Bool.and_false]

theorem spoiled (hr : r.isBlock = false) : r.Spoiled (r.tieError u') u u' := by
  cases r with
  | commonBlock | variantBlock => cases hr
  | toplevel =>
    intro d hd
    obtain ⟨his, -⟩ := is_of_ofToplevel? hd
    have hsort : u.sort = "Toplevel" := beq_iff_eq.1 (Bool.and_eq_true_iff.1 his).1
    rw [ofToplevel?_eq, if_pos ⟨h.sort.trans hsort, h.isAmbiguity⟩]
    rfl
  | declaration =>
    intro d hd
    rw [ofTree?_eq] at hd
    split at hd
    · cases hd
    · next hsort =>
      rw [ofTree?_eq, if_neg (h.sort ▸ hsort), if_pos h.isAmbiguity]
      rfl
  | type =>
    intro type htype
    rw [TypeExpr.ofTree_eq] at htype
    split at htype
    · cases htype
    · next hsort =>
      rw [TypeExpr.ofTree_eq, if_neg (h.sort ▸ hsort), TypeExpr.formOf, h.nodeOr]
      rfl
  | reference =>
    intro _ _
    rw [TypeReference.ofTree_eq, h.nodeOr]
    rfl
  | name =>
    intro _ _
    rw [QualifiedName.ofTree, h.not_is (by decide)]
    rfl
  | variant =>
    intro _ _
    rw [Variant.ofTree_eq, h.not_is (by decide)]
    rfl
  | formal =>
    intro _ _
    rw [KeywordFormal.ofTree_eq, h.not_is (by decide)]
    rfl
  | argument =>
    intro _ _
    rw [TypeArgument.ofTree_eq, h.nodeOr]
    rfl
  | structured =>
    intro _ _
    rw [TypeExpr.structuredOfTree, h.nodeOr]
    rfl
  | typeVar =>
    intro _ _
    rw [TypeExpr.variableOfTree_eq, h.nodeOr]
    rfl

end TiedAs

/-- The second declaration is the first without the keyword formals of one block. -/
inductive Loses : Role → Declaration → Declaration → Prop
  | data {type : TypeReference TypeExpr} {keywords : List KeywordFormal} {variants : List Variant} :
    Loses .commonBlock (.data type keywords variants) (.data type [] variants)
  | abstractData {type : TypeReference TypeExpr} {keywords : List KeywordFormal} :
    Loses .commonBlock (.abstractData type keywords) (.abstractData type [])
  | variant {type : TypeReference TypeExpr} {keywords : List KeywordFormal}
    {before after : List Variant} {v : Variant} :
    Loses .variantBlock (.data type keywords (before ++ v :: after))
      (.data type keywords (before ++ { v with keywords := [] } :: after))

def Lost (r : Role) (d? : Option Declaration) (y : Except Error (Option Declaration)) : Prop :=
  ∃ d d', d? = some d ∧ y = .ok (some d') ∧ Loses r d d'

def Role.Dropped (r : Role) (t t' : Tree) : Role → Prop
  | .toplevel => ∀ d, ofToplevel? t = .ok (some d) →
    ∃ d', ofToplevel? t' = .ok (some d') ∧ Loses r d d'
  | .declaration => Turns (Lost r) (ofTree? t) (ofTree? t')
  | .variant => r = .variantBlock ∧
    Turns (fun v y => y = .ok { v with keywords := [] }) (Variant.ofTree t) (Variant.ofTree t')
  | .commonBlock => r = .commonBlock ∧ KeywordFormal.commonOfTree t' = .ok []
  | .variantBlock => r = .variantBlock ∧ KeywordFormal.ownOfTree t' = .ok []
  | _ => False

theorem TiedAs.dropped (h : TiedAs u u') (hr : r.isBlock = true) : r.Dropped u u' r := by
  cases r with
  | commonBlock => exact ⟨rfl, if_neg (by rw [h.constructor]; decide)⟩
  | variantBlock => exact ⟨rfl, if_neg (by rw [h.constructor]; decide)⟩
  | _ => cases hr

theorem dropped_node (place : NodePlace q t.constructor i p) (arg : t.arg? i = some (.node s))
    (h : r.Dropped s s' p) : r.Dropped t (t.setArg i (.node s')) q := by
  generalize hc : t.constructor = c at place
  have hc' : (t.setArg i (.node s')).constructor = c := (constructor_setArg _).trans hc
  cases place with
  | declaration =>
    intro d hd
    obtain ⟨his, ha⟩ := is_of_ofToplevel? hd
    rw [ofToplevel?_of_is his ha] at hd
    rw [ofToplevel?_of_is ((is_setArg ..).trans his) ((isAmbiguity_setArg _).trans ha)]
    have h : Turns (Lost r) (ofTree? s) (ofTree? s') := h
    obtain ⟨_, d', ⟨⟩, hd', hloses⟩ := Turns.at_node arg h _ hd
    exact ⟨d', hd', hloses⟩
  | dataKeywords =>
    obtain ⟨rfl, hs'⟩ := h
    refine turns_ofTree? hc (.past_node (by decide) fun _ => .after fun _ => .at_node arg ?_)
    rw [bind_of_ok hs']
    exact .skip fun _ => .past_list (by decide) fun _ => .pure ⟨_, _, rfl, rfl, .data⟩
  | abstractKeywords =>
    obtain ⟨rfl, hs'⟩ := h
    refine turns_ofTree? hc (.past_node (by decide) fun _ => .after fun _ => .at_node arg ?_)
    rw [bind_of_ok hs']
    exact .skip fun _ => .pure ⟨_, _, rfl, rfl, .abstractData⟩
  | variantKeywords =>
    obtain ⟨rfl, hs'⟩ := h
    refine ⟨rfl, ?_⟩
    rw [Variant.ofTree_eq, Variant.ofTree_eq (t.setArg ..), is_setArg]
    refine .guard (.at_node arg (.past_node (by decide) fun _ => .after fun _ =>
      .past_list (by decide) fun _ => ?_))
    rw [bind_of_ok hs']
    exact .skip fun _ => .pure rfl
  | _ => exact h.elim

theorem dropped_item {before rest : List Tree} (place : ListPlace q t.constructor i p)
    (arg : t.arg? i = some (.list (before ++ s :: rest))) (h : r.Dropped s s' p) :
    r.Dropped t (t.setArg i (.list (before ++ s' :: rest))) q := by
  generalize hc : t.constructor = c at place
  have hc' : (t.setArg i (.list (before ++ s' :: rest))).constructor = c :=
    (constructor_setArg _).trans hc
  cases place with
  | variants =>
    obtain ⟨rfl, hs⟩ := h
    refine turns_ofTree? hc (.past_node (by decide) fun _ => .after fun _ =>
      .past_node (by decide) fun _ => .after fun _ => .at_item arg hs fun _ _ _ => ?_)
    exact .pure ⟨_, _, rfl, rfl, .variant⟩
  | _ => exact h.elim

theorem Replaces.dropped (h : Replaces r u u' q t t') (hu : r.Dropped u u' r) :
    r.Dropped t t' q := by
  induction h with
  | here => exact hu
  | node place arg _ ih => exact dropped_node place arg ih
  | item place arg _ ih => exact dropped_item place arg ih

theorem collect_append {before ts : List Tree} {ds : List Declaration}
    (h : collect before = .ok ds) : collect (before ++ ts) = (ds ++ ·) <$> collect ts := by
  obtain ⟨found, hfound, hds⟩ := bind_eq_ok.1 h
  rw [← pure_eq_ok.1 hds, collect, collect, List.mapM_append, bind_of_ok hfound]
  cases ts.mapM ofToplevel? with
  | error e => rfl
  | ok more => exact congrArg Except.ok (List.filterMap_append ..)

theorem collect_cons_of_ok {t : Tree} {ts : List Tree} {d : Declaration}
    (h : ofToplevel? t = .ok (some d)) : collect (t :: ts) = (d :: ·) <$> collect ts := by
  rw [collect, collect, List.mapM_cons, bind_of_ok h]
  cases ts.mapM ofToplevel? <;> rfl

theorem collect_cons_of_error {t : Tree} {ts : List Tree} {e : Error}
    (h : ofToplevel? t = .error e) : collect (t :: ts) = .error e := by
  rw [collect, List.mapM_cons, h]
  rfl

/-- Tied readings inside of a declaration among toplevels. Of a toplevel and of a declaration they
are reported as such. A block of keyword formals that is tied counts as absent, so its formals are
missing from the declaration. Anywhere else tied readings are taken for a defect. -/
theorem collect_of_tied {before rest : List Tree} {ds : List Declaration} {d : Declaration}
    {r : Role} {t t' u u' : Tree} (hbefore : collect before = .ok ds)
    (hd : ofToplevel? t = .ok (some d)) (hat : Replaces r u u' .toplevel t t')
    (htie : TiedAs u u') :
    (r.isBlock = false → collect (before ++ t' :: rest) = .error (r.tieError u')) ∧
    (r.isBlock = true → ∃ d', Loses r d d' ∧
      ∀ ds', collect rest = .ok ds' → collect (before ++ t' :: rest) = .ok (ds ++ d' :: ds')) := by
  constructor
  · intro hr
    have hfails : ofToplevel? t' = .error (r.tieError u') := hat.spoiled (htie.spoiled hr) d hd
    rw [collect_append hbefore, collect_cons_of_error hfails]
    rfl
  · intro hr
    obtain ⟨d', hd', hloses⟩ := hat.dropped (htie.dropped hr) d hd
    refine ⟨d', hloses, fun ds' hds' => ?_⟩
    rw [collect_append hbefore, collect_cons_of_ok hd', hds']
    rfl

def tie (sort : String) (alternatives : List Tree) : Tree :=
  ⟨sort, Registry.ambiguityName, none, Cost.zero.withAmbiguous true, .ambiguity alternatives⟩

/-- A data type with a keyword formal for all constructors and a constructor with one field. -/
def expressions : Declaration :=
  data ⟨⟨[], "Exp"⟩, [], none⟩
    [⟨.builtin .int, "line", .applied "Expression" "Literal" [.node (.word "IntLit" "1")]⟩]
    [⟨"lit", [⟨.builtin .int, some "value"⟩], []⟩]

def literalOf (field : Tree) : Tree :=
  .applied "Variant" "NAryConstructor" [.node (.escapedName "lit"),
    .list [TypeArgument.treeOf field (some "value")], .node (KeywordFormal.ownToTree [])]

def expressionsOf (type block field : Tree) : Tree :=
  .applied "Declaration" "Data" [.node (.applied "Tags" "Default" [.list []]),
    .node (.applied "Visibility" "Default" []), .node type, .node block,
    .list [literalOf field]]

def toplevelOf (declaration : Tree) : Tree :=
  .applied "Toplevel" "GivenVisibility" [.node declaration]

def expressionsType : Tree := TypeReference.toTree ⟨⟨[], "Exp"⟩, [], none⟩

def expressionsBlock (default : String) : Tree :=
  KeywordFormal.commonToTree
    [⟨.builtin .int, "line", .applied "Expression" "Literal" [.node (.word default "1")]⟩]

theorem ofToplevel?_expressionsOf :
    ofToplevel? (toplevelOf (expressionsOf expressionsType (expressionsBlock "IntLit")
      (TypeExpr.builtin .int).toTree)) = .ok (some expressions) :=
  expressions.ofToplevel?_toToplevel (by
    simp [expressions, symbols, TypeExpr.symbols, TypeExpr.allSymbols, TypeArgument.symbols,
      KeywordFormal.symbols, Variant.symbols])

theorem collect_of_tied_field :
    let field : Tree := (TypeExpr.builtin .int).toTree
    let tied := tie "Type" [field, (TypeExpr.symbol (.named .sort "int")).toTree]
    let toplevel (field : Tree) :=
      toplevelOf (expressionsOf expressionsType (expressionsBlock "IntLit") field)
    Replaces .type field tied .toplevel (toplevel field) (toplevel tied) ∧ TiedAs field tied ∧
      collect ([] ++ toplevel tied :: []) =
        .error (.defect (.malformed "type" "Type" "Ambiguity")) := by
  intro field tied toplevel
  have htie : TiedAs field tied := ⟨rfl, rfl, _, rfl, by decide⟩
  let argument (field : Tree) : Tree := TypeArgument.treeOf field (some "value")
  have hargument : Replaces .type field tied .argument (argument field) (argument tied) :=
    .node .argumentType rfl .here
  have harguments : (literalOf field).arg? 1 = some (.list ([] ++ argument field :: [])) := rfl
  have hvariant : Replaces .type field tied .variant (literalOf field) (literalOf tied) :=
    .item .arguments harguments hargument
  let declaration := expressionsOf expressionsType (expressionsBlock "IntLit")
  have hvariants : (declaration field).arg? 4 = some (.list ([] ++ literalOf field :: [])) := rfl
  have hdeclaration : Replaces .type field tied .declaration (declaration field)
      (declaration tied) := .item .variants hvariants hvariant
  have hat : Replaces .type field tied .toplevel (toplevel field) (toplevel tied) :=
    .node (i := 0) .declaration rfl hdeclaration
  exact ⟨hat, htie, (collect_of_tied rfl ofToplevel?_expressionsOf hat htie).1 rfl⟩

/-- Two readings of the name of the type are no ambiguity, and with two readings of the block of
keyword formals the formal is missing. -/
theorem tied_parts_are_missed :
    let type := expressionsType
    let block := expressionsBlock "IntLit"
    let field : Tree := (TypeExpr.builtin .int).toTree
    let tiedType := tie "UserType" [type, type]
    let tiedBlock := tie "CommonKeywordParameters" [block, expressionsBlock "RationalLit"]
    collect [toplevelOf (expressionsOf type block field)] = .ok [expressions] ∧
    TiedAs type tiedType ∧ TiedAs block tiedBlock ∧
    collect [toplevelOf (expressionsOf tiedType block field)] =
      .error (.defect (.malformed "user type" "UserType" "Ambiguity")) ∧
    collect [toplevelOf (expressionsOf type tiedBlock field)] =
      .ok [data ⟨⟨[], "Exp"⟩, [], none⟩ [] [⟨"lit", [⟨.builtin .int, some "value"⟩], []⟩]] := by
  intro type block field tiedType tiedBlock
  have hread : ofToplevel? (toplevelOf (expressionsOf type block field)) = .ok (some expressions) :=
    ofToplevel?_expressionsOf
  have htype : TiedAs type tiedType := ⟨rfl, rfl, _, rfl, by decide⟩
  have hblock : TiedAs block tiedBlock := ⟨rfl, rfl, _, rfl, by decide⟩
  have htypeAt : Replaces .reference type tiedType .toplevel
      (toplevelOf (expressionsOf type block field))
      (toplevelOf (expressionsOf tiedType block field)) :=
    .node (i := 0) .declaration rfl (.node (i := 2) .dataType rfl .here)
  have hblockAt : Replaces .commonBlock block tiedBlock .toplevel
      (toplevelOf (expressionsOf type block field))
      (toplevelOf (expressionsOf type tiedBlock field)) :=
    .node (i := 0) .declaration rfl (.node (i := 3) .dataKeywords rfl .here)
  refine ⟨?_, htype, hblock, ?_, ?_⟩
  · rw [collect_cons_of_ok hread]
    rfl
  · exact collect_cons_of_error (htypeAt.spoiled (htype.spoiled (r := .reference) rfl) _ hread)
  · obtain ⟨d', hd', hloses⟩ := hblockAt.dropped (hblock.dropped rfl) _ hread
    rw [collect_cons_of_ok hd']
    cases hloses
    rfl

end Declaration

end ParseForest
