import ParseForest.Proofs.Declaration.Readers

/-!
Declarations in which one tree is replaced by another. What a declaration consults, and in which
order, decides what becomes of the whole: an error of the new tree is the error of the whole. Main
statement: `Replaces.spoiled`.
-/

namespace ParseForest

open Success ParseForest.Tree

namespace Declaration

/-- What a tree inside of a declaration is read as. -/
inductive Role where
  | toplevel
  | declaration
  | reference
  | name
  | commonBlock
  | variant
  | variantBlock
  | formal
  | argument
  | type
  | structured
  | typeVar
  deriving DecidableEq

/-- In which place of a tree, by what the tree is read as and its constructor, another one is read,
and as what. -/
inductive NodePlace : Role → String → Nat → Role → Prop
  | declaration : NodePlace .toplevel "GivenVisibility" 0 .declaration
  | dataType : NodePlace .declaration "Data" 2 .reference
  | dataKeywords : NodePlace .declaration "Data" 3 .commonBlock
  | abstractType : NodePlace .declaration "DataAbstract" 2 .reference
  | abstractKeywords : NodePlace .declaration "DataAbstract" 3 .commonBlock
  | synonymType : NodePlace .declaration "Alias" 2 .reference
  | synonymBase : NodePlace .declaration "Alias" 3 .type
  | name {constructor : String} : NodePlace .reference constructor 0 .name
  | formalType : NodePlace .formal "Default" 0 .type
  | variantKeywords : NodePlace .variant "NAryConstructor" 2 .variantBlock
  | argumentType {constructor : String} : NodePlace .argument constructor 0 .type
  | structured : NodePlace .type "Structured" 0 .structured
  | user : NodePlace .type "User" 0 .reference
  | typeVar : NodePlace .type "Variable" 0 .typeVar
  | bracketed : NodePlace .type "Bracket" 0 .type
  | bound : NodePlace .typeVar "Bounded" 1 .type

inductive ListPlace : Role → String → Nat → Role → Prop
  | variants : ListPlace .declaration "Data" 4 .variant
  | parameters : ListPlace .reference "Parametric" 1 .type
  | commonFormals : ListPlace .commonBlock "Present" 0 .formal
  | ownFormals : ListPlace .variantBlock "Default" 0 .formal
  | arguments : ListPlace .variant "NAryConstructor" 1 .argument
  | structureArguments {constructor : String} : ListPlace .structured constructor 1 .argument

/-- The second tree is the first with `u`, which is read as `r`, replaced by `u'`. -/
inductive Replaces (r : Role) (u u' : Tree) : Role → Tree → Tree → Prop
  | here : Replaces r u u' r u u'
  | node {q p : Role} {t s s' : Tree} {i : Nat} (place : NodePlace q t.constructor i p)
    (arg : t.arg? i = some (.node s)) (inside : Replaces r u u' p s s') :
    Replaces r u u' q t (t.setArg i (.node s'))
  | item {q p : Role} {t s s' : Tree} {i : Nat} {before after : List Tree}
    (place : ListPlace q t.constructor i p)
    (arg : t.arg? i = some (.list (before ++ s :: after))) (inside : Replaces r u u' p s s') :
    Replaces r u u' q t (t.setArg i (.list (before ++ s' :: after)))

/-- Whatever the first computation gives has to do with the outcome of the second. -/
def Turns {α : Type} (Q : α → Except Error α → Prop) (x y : Except Error α) : Prop :=
  ∀ a, x = .ok a → Q a y

abbrev Spoils {α : Type} (e : Error) : Except Error α → Except Error α → Prop :=
  Turns fun _ y => y = .error e

namespace Turns

variable {α β : Type} {Q : α → Except Error α → Prop} {x y : Except Error α}
  {z : Except Error β} {f g : β → Except Error α}

theorem pure {a b : α} (h : Q a (.ok b)) : Turns Q (.ok a) (.ok b) := by
  rintro _ ⟨⟩
  exact h

theorem guard {c : Prop} [Decidable c] {e e' : Error} (h : Turns Q x y) :
    Turns Q (if c then .error e else x) (if c then .error e' else y) := by
  intro a ha
  split at ha
  · cases ha
  · next hc =>
    rw [if_neg hc]
    exact h a ha

theorem skip (h : ∀ b, Turns Q (f b) y) : Turns Q (z >>= f) y := by
  intro a ha
  obtain ⟨b, -, hb⟩ := bind_eq_ok.1 ha
  exact h b a hb

theorem after (h : ∀ b, Turns Q (f b) (g b)) : Turns Q (z >>= f) (z >>= g) := by
  intro a ha
  obtain ⟨b, hz, hb⟩ := bind_eq_ok.1 ha
  rw [bind_of_ok hz]
  exact h b a hb

theorem spoils {e : Error} {w : Except Error β} (h : Spoils e z w) :
    Spoils e (z >>= f) (w >>= g) := by
  intro a ha
  obtain ⟨b, hb, -⟩ := bind_eq_ok.1 ha
  rw [h b hb]
  rfl

variable {t s s' : Tree} {i j : Nat} {what : String} {a : Arg Tree} {k k' : Tree → Except Error α}

theorem at_node (arg : t.arg? i = some (.node s)) (h : Turns Q (k s) (k' s')) :
    Turns Q (t.nodeOr i what >>= k) ((t.setArg i (.node s')).nodeOr i what >>= k') := by
  rw [bind_of_ok (nodeOr_of arg what), bind_of_ok (nodeOr_of (arg?_setArg_self arg) what)]
  exact h

theorem past_node (hne : i ≠ j) (h : ∀ s, Turns Q (k s) (k' s)) :
    Turns Q (t.nodeOr j what >>= k) ((t.setArg i a).nodeOr j what >>= k') := by
  rw [nodeOr_setArg_of_ne hne]
  exact after h

variable {before rest : List Tree} {read : Tree → Except Error β} {l l' : List β → Except Error α}

theorem past_list (hne : i ≠ j) (h : ∀ bs, Turns Q (l bs) (l' bs)) :
    Turns Q (t.listOr j what >>= fun ts => ts.mapM read >>= l)
      ((t.setArg i a).listOr j what >>= fun ts => ts.mapM read >>= l') := by
  rw [listOr_setArg_of_ne hne]
  exact after fun _ => after h

theorem spoils_items {e : Error} (arg : t.arg? i = some (.list (before ++ s :: rest)))
    (h : Spoils e (read s) (read s')) :
    Spoils e (t.listOr i what >>= (·.mapM read))
      ((t.setArg i (.list (before ++ s' :: rest))).listOr i what >>= (·.mapM read)) := by
  rw [bind_of_ok (listOr_of arg what), bind_of_ok (listOr_of (arg?_setArg_self arg) what),
    List.mapM_append, List.mapM_append, List.mapM_cons, List.mapM_cons]
  exact after fun _ => spoils (spoils h)

theorem spoils_item {e : Error} (arg : t.arg? i = some (.list (before ++ s :: rest)))
    (h : Spoils e (read s) (read s')) :
    Spoils e (t.listOr i what >>= fun ts => ts.mapM read >>= l)
      ((t.setArg i (.list (before ++ s' :: rest))).listOr i what >>=
        fun ts => ts.mapM read >>= l') := by
  rw [← bind_assoc, ← bind_assoc]
  exact spoils (spoils_items arg h)

theorem at_item {change : β → β} (arg : t.arg? i = some (.list (before ++ s :: rest)))
    (h : Turns (fun b y => y = .ok (change b)) (read s) (read s'))
    (hl : ∀ bs b bs', Turns Q (l (bs ++ b :: bs')) (l' (bs ++ change b :: bs'))) :
    Turns Q (t.listOr i what >>= fun ts => ts.mapM read >>= l)
      ((t.setArg i (.list (before ++ s' :: rest))).listOr i what >>=
        fun ts => ts.mapM read >>= l') := by
  rw [bind_of_ok (listOr_of arg what), bind_of_ok (listOr_of (arg?_setArg_self arg) what)]
  intro c hc
  obtain ⟨all, hall, hc⟩ := bind_eq_ok.1 hc
  rw [List.mapM_append, List.mapM_cons] at hall
  obtain ⟨bs, hbefore, hall⟩ := bind_eq_ok.1 hall
  obtain ⟨others, hothers, hall⟩ := bind_eq_ok.1 hall
  obtain ⟨b, hb, hothers⟩ := bind_eq_ok.1 hothers
  obtain ⟨bs', hrest, hothers⟩ := bind_eq_ok.1 hothers
  cases pure_eq_ok.1 hothers
  cases pure_eq_ok.1 hall
  have hchanged : (before ++ s' :: rest).mapM read = .ok (bs ++ change b :: bs') := by
    rw [List.mapM_append, List.mapM_cons, bind_of_ok hbefore, h b hb, hrest]
    rfl
  rw [bind_of_ok hchanged]
  exact hl bs b bs' c hc

end Turns

def Role.Spoiled (e : Error) (t t' : Tree) : Role → Prop
  | .toplevel => ∀ d, ofToplevel? t = .ok (some d) → ofToplevel? t' = .error e
  | .declaration => Spoils e (ofTree? t) (ofTree? t')
  | .reference => Spoils e (TypeReference.ofTree t) (TypeReference.ofTree t')
  | .name => Spoils e (QualifiedName.ofTree t) (QualifiedName.ofTree t')
  | .commonBlock => Spoils e (KeywordFormal.commonOfTree t) (KeywordFormal.commonOfTree t')
  | .variant => Spoils e (Variant.ofTree t) (Variant.ofTree t')
  | .variantBlock => Spoils e (KeywordFormal.ownOfTree t) (KeywordFormal.ownOfTree t')
  | .formal => Spoils e (KeywordFormal.ofTree t) (KeywordFormal.ofTree t')
  | .argument => Spoils e (TypeArgument.ofTree t) (TypeArgument.ofTree t')
  | .type => Spoils e (TypeExpr.ofTree t) (TypeExpr.ofTree t')
  | .structured => Spoils e (TypeExpr.structuredOfTree t) (TypeExpr.structuredOfTree t')
  | .typeVar => Spoils e (TypeExpr.variableOfTree t) (TypeExpr.variableOfTree t')

section Places

variable {q p : Role} {t s s' : Tree} {i : Nat} {e : Error}

theorem ofToplevel?_of_is (h : t.is "Toplevel" "GivenVisibility" = true)
    (ha : t.isAmbiguity = false) : ofToplevel? t = t.nodeOr 0 "toplevel" >>= ofTree? := by
  rw [ofToplevel?_eq, if_neg (by simp [ha]), if_neg (by simp [h])]

theorem is_of_ofToplevel? {d : Declaration} (h : ofToplevel? t = .ok (some d)) :
    t.is "Toplevel" "GivenVisibility" = true ∧ t.isAmbiguity = false := by
  rw [ofToplevel?_eq] at h
  split at h
  · cases h
  · next hamb =>
    split at h
    · cases h
    · next his =>
      have his : t.is "Toplevel" "GivenVisibility" = true := by simpa using his
      have hsort : t.sort = "Toplevel" := beq_iff_eq.1 (Bool.and_eq_true_iff.1 his).1
      exact ⟨his, Bool.eq_false_iff.2 fun ha => hamb ⟨hsort, ha⟩⟩

theorem turns_ofTree? {Q : Option Declaration → Except Error (Option Declaration) → Prop}
    {constructor : String} {a : Arg Tree} (hc : t.constructor = constructor)
    (h : Turns Q (formOf? constructor t) (formOf? constructor (t.setArg i a))) :
    Turns Q (ofTree? t) (ofTree? (t.setArg i a)) := by
  rw [ofTree?_eq, ofTree?_eq (t.setArg ..), sort_setArg, isAmbiguity_setArg, constructor_setArg, hc]
  exact .guard (.guard h)

theorem turns_ofType {Q : TypeExpr → Except Error TypeExpr → Prop} {constructor : String}
    {a : Arg Tree} (hc : t.constructor = constructor)
    (h : Turns Q (TypeExpr.formOf constructor t) (TypeExpr.formOf constructor (t.setArg i a))) :
    Turns Q (TypeExpr.ofTree t) (TypeExpr.ofTree (t.setArg i a)) := by
  rw [TypeExpr.ofTree_eq, TypeExpr.ofTree_eq (t.setArg ..), sort_setArg, constructor_setArg, hc]
  exact .guard h

theorem spoiled_node (place : NodePlace q t.constructor i p) (arg : t.arg? i = some (.node s))
    (h : p.Spoiled e s s') : q.Spoiled e t (t.setArg i (.node s')) := by
  generalize hc : t.constructor = c at place
  have hc' : (t.setArg i (.node s')).constructor = c := (constructor_setArg _).trans hc
  cases place with
  | declaration =>
    intro d hd
    obtain ⟨his, ha⟩ := is_of_ofToplevel? hd
    rw [ofToplevel?_of_is his ha] at hd
    rw [ofToplevel?_of_is ((is_setArg ..).trans his) ((isAmbiguity_setArg _).trans ha)]
    exact Turns.at_node (Q := fun _ y => y = .error e) arg h (some d) hd
  | dataType =>
    exact turns_ofTree? hc (.at_node arg (.spoils h))
  | dataKeywords =>
    exact turns_ofTree? hc (.past_node (by decide) fun _ => .after fun _ =>
      .at_node arg (.spoils h))
  | abstractType =>
    exact turns_ofTree? hc (.at_node arg (.spoils h))
  | abstractKeywords =>
    exact turns_ofTree? hc (.past_node (by decide) fun _ => .after fun _ =>
      .at_node arg (.spoils h))
  | synonymType =>
    exact turns_ofTree? hc (.at_node arg (.spoils h))
  | synonymBase =>
    exact turns_ofTree? hc (.past_node (by decide) fun _ => .after fun _ =>
      .at_node arg (.spoils h))
  | name =>
    show Spoils _ _ _
    rw [TypeReference.ofTree_eq, TypeReference.ofTree_eq (t.setArg ..)]
    exact .at_node arg (.spoils h)
  | formalType =>
    show Spoils _ _ _
    rw [KeywordFormal.ofTree_eq, KeywordFormal.ofTree_eq (t.setArg ..), is_setArg]
    exact .guard (.at_node arg (.spoils h))
  | variantKeywords =>
    show Spoils _ _ _
    rw [Variant.ofTree_eq, Variant.ofTree_eq (t.setArg ..), is_setArg]
    exact .guard (.at_node arg (.past_node (by decide) fun _ => .after fun _ =>
      .past_list (by decide) fun _ => .spoils h))
  | argumentType =>
    show Spoils _ _ _
    rw [TypeArgument.ofTree_eq, TypeArgument.ofTree_eq (t.setArg ..)]
    exact .at_node arg (.spoils h)
  | structured =>
    exact turns_ofType hc (.at_node arg (.spoils h))
  | user =>
    exact turns_ofType hc (.at_node arg (.spoils h))
  | typeVar =>
    exact turns_ofType hc (.at_node arg (.spoils h))
  | bracketed =>
    have h : Spoils e (TypeExpr.ofTree s) (TypeExpr.ofTree s') := h
    exact turns_ofType hc (.at_node arg h)
  | bound =>
    show Spoils _ _ _
    rw [TypeExpr.variableOfTree_eq, TypeExpr.variableOfTree_eq (t.setArg ..), hc, hc']
    exact .past_node (by decide) fun _ => .after fun _ => .at_node arg (.spoils h)

theorem spoiled_item {before rest : List Tree} (place : ListPlace q t.constructor i p)
    (arg : t.arg? i = some (.list (before ++ s :: rest))) (h : p.Spoiled e s s') :
    q.Spoiled e t (t.setArg i (.list (before ++ s' :: rest))) := by
  generalize hc : t.constructor = c at place
  have hc' : (t.setArg i (.list (before ++ s' :: rest))).constructor = c :=
    (constructor_setArg _).trans hc
  cases place with
  | variants =>
    exact turns_ofTree? hc (.past_node (by decide) fun _ => .after fun _ =>
      .past_node (by decide) fun _ => .after fun _ => .spoils_item arg h)
  | parameters =>
    show Spoils _ _ _
    rw [TypeReference.ofTree_eq, TypeReference.ofTree_eq (t.setArg ..), hc, hc']
    exact .past_node (by decide) fun _ => .after fun _ => .spoils_item arg h
  | commonFormals =>
    show Spoils _ _ _
    rw [KeywordFormal.commonOfTree, KeywordFormal.commonOfTree, if_pos hc, if_pos hc',
      KeywordFormal.listOfTree_eq, KeywordFormal.listOfTree_eq]
    exact .spoils_items arg h
  | ownFormals =>
    show Spoils _ _ _
    rw [KeywordFormal.ownOfTree, KeywordFormal.ownOfTree, if_pos hc, if_pos hc',
      KeywordFormal.listOfTree_eq, KeywordFormal.listOfTree_eq]
    exact .spoils_items arg h
  | arguments =>
    show Spoils _ _ _
    rw [Variant.ofTree_eq, Variant.ofTree_eq (t.setArg ..), is_setArg]
    refine .guard (.past_node (by decide) fun _ => .past_node (by decide) fun _ => ?_)
    exact .after fun _ => .spoils_item arg h
  | structureArguments =>
    show Spoils _ _ _
    rw [TypeExpr.structuredOfTree, TypeExpr.structuredOfTree]
    exact .past_node (by decide) fun _ => .after fun _ => .spoils_item arg h

end Places

theorem Replaces.spoiled {r q : Role} {t t' u u' : Tree} {e : Error}
    (h : Replaces r u u' q t t') (hu : r.Spoiled e u u') :
    q.Spoiled e t t' := by
  induction h with
  | here => exact hu
  | node place arg _ ih => exact spoiled_node place arg ih
  | item place arg _ ih => exact spoiled_item place arg ih

end Declaration

end ParseForest
