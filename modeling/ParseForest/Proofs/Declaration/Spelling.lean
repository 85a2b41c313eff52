import Mathlib.Data.List.Basic
import ParseForest.Declaration.OfTree
import ParseForest.Proofs.Success
import ParseForest.Proofs.Symbol.Spelling

/-!
Declarations as trees. Names are spelled with a backslash, which keeps them from being keywords;
literals in symbols are quoted. What is spelled so is read back as it was, spans of user types
included, whatever stands between the declarations. Main statement: `Interleaves.collect_eq`.
-/

namespace ParseForest

open Success

namespace Tree

variable {t s : Tree} {i : Nat} {ts : List Tree}

def escapedName (name : String) : Tree := word "Name" ("\\" ++ name)

theorem requireName_escapedName (name : String) : (escapedName name).requireName = .ok name := by
  have hname : Text.withoutLeading "\\" ("\\" ++ name) = name := by
    simp [Text.withoutLeading, List.isPrefixOf?]
  exact congrArg Except.ok hname

theorem exists_requireList {α : Type} {as : List α} {read : Tree → Except Error α}
    (ht : t.listArg? i = some ts) (hread : ts.mapM read = .ok as) (what : String) :
    ∃ ps, t.requireList i what = .ok ps ∧ ps.mapM (fun s => read s.1) = .ok as := by
  obtain ⟨ps, hps, hmap⟩ := exists_listPart? ht read
  exact ⟨ps, by rw [requireList, hps], hmap.trans hread⟩

end Tree

def QualifiedName.toTree (n : QualifiedName) : Tree :=
  .applied "QualifiedName" "Default" [.list (n.parts.map Tree.escapedName)]

def Builtin.toTree (b : Builtin) : Tree := .applied "BasicType" b.constructor []

def TypeReference.treeOf (name : QualifiedName) (parameters : List Tree) (span : Option Span) :
    Tree :=
  let t := match parameters with
    | [] => Tree.applied "UserType" "Name" [.node name.toTree]
    | _ => Tree.applied "UserType" "Parametric" [.node name.toTree, .list parameters]
  { t with span }

def TypeArgument.treeOf (type : Tree) : Option String → Tree
  | none => .applied "TypeArg" "Default" [.node type]
  | some label => .applied "TypeArg" "Named" [.node type, .node (.escapedName label)]

mutual
def TypeExpr.toTree : TypeExpr → Tree
  | .builtin b => .applied "Type" "Basic" [.node b.toTree]
  | .structured kind args => .applied "Type" "Structured"
    [.node (.applied "StructuredType" "Default"
      [.node kind.toTree, .list (TypeArgument.toTrees args)])]
  | .user ⟨name, parameters, span⟩ =>
    .applied "Type" "User" [.node (TypeReference.treeOf name (TypeExpr.toTrees parameters) span)]
  | .typeVar name none => .applied "Type" "Variable"
    [.node (.applied "TypeVar" "Free" [.node (.escapedName name)])]
  | .typeVar name (some bound) => .applied "Type" "Variable"
    [.node (.applied "TypeVar" "Bounded" [.node (.escapedName name), .node bound.toTree])]
  | .symbol s => .applied "Type" "Symbol" [.node s.toTree]
termination_by structural e => e

def TypeExpr.toTrees : List TypeExpr → List Tree
  | [] => []
  | e :: es => e.toTree :: TypeExpr.toTrees es
termination_by structural es => es

def TypeArgument.toTrees : List (TypeArgument TypeExpr) → List Tree
  | [] => []
  | ⟨type, label⟩ :: as => TypeArgument.treeOf type.toTree label :: TypeArgument.toTrees as
termination_by structural as => as
end

mutual
def TypeExpr.symbols : TypeExpr → List Symbol
  | .builtin _ => []
  | .structured _ args => TypeArgument.symbols args
  | .user ⟨_, parameters, _⟩ => TypeExpr.allSymbols parameters
  | .typeVar _ none => []
  | .typeVar _ (some bound) => bound.symbols
  | .symbol s => [s]
termination_by structural e => e

def TypeExpr.allSymbols : List TypeExpr → List Symbol
  | [] => []
  | e :: es => e.symbols ++ TypeExpr.allSymbols es
termination_by structural es => es

def TypeArgument.symbols : List (TypeArgument TypeExpr) → List Symbol
  | [] => []
  | ⟨type, _⟩ :: as => type.symbols ++ TypeArgument.symbols as
termination_by structural as => as
end

def TypeReference.toTree (r : TypeReference TypeExpr) : Tree :=
  TypeReference.treeOf r.name (TypeExpr.toTrees r.parameters) r.span

namespace KeywordFormal

def toTree (f : KeywordFormal) : Tree :=
  .applied "KeywordFormal" "Default"
    [.node f.type.toTree, .node (.escapedName f.name), .node f.default]

def symbols (fs : List KeywordFormal) : List Symbol := fs.flatMap (·.type.symbols)

def blockOf (sort present absent : String) : List KeywordFormal → Tree
  | [] => .applied sort absent []
  | fs => .applied sort present [.list (fs.map toTree)]

def commonToTree : List KeywordFormal → Tree := blockOf "CommonKeywordParameters" "Present" "Absent"

def ownToTree : List KeywordFormal → Tree := blockOf "KeywordFormals" "Default" "None"

end KeywordFormal

namespace Variant

def toTree (v : Variant) : Tree :=
  .applied "Variant" "NAryConstructor" [.node (.escapedName v.name),
    .list (TypeArgument.toTrees v.arguments), .node (KeywordFormal.ownToTree v.keywords)]

def symbols (v : Variant) : List Symbol :=
  TypeArgument.symbols v.arguments ++ KeywordFormal.symbols v.keywords

end Variant

namespace Declaration

def toTree (tags visibility : Tree) : Declaration → Tree
  | .data type keywords variants => .applied "Declaration" "Data"
    [.node tags, .node visibility, .node type.toTree, .node (KeywordFormal.commonToTree keywords),
      .list (variants.map Variant.toTree)]
  | .abstractData type keywords => .applied "Declaration" "DataAbstract"
    [.node tags, .node visibility, .node type.toTree, .node (KeywordFormal.commonToTree keywords)]
  | .synonym type base => .applied "Declaration" "Alias"
    [.node tags, .node visibility, .node type.toTree, .node base.toTree]

def toToplevel (tags visibility : Tree) (d : Declaration) : Tree :=
  .applied "Toplevel" "GivenVisibility" [.node (d.toTree tags visibility)]

def symbols : Declaration → List Symbol
  | .data type keywords variants => TypeExpr.allSymbols type.parameters ++
    KeywordFormal.symbols keywords ++ variants.flatMap Variant.symbols
  | .abstractData type keywords =>
    TypeExpr.allSymbols type.parameters ++ KeywordFormal.symbols keywords
  | .synonym type base => TypeExpr.allSymbols type.parameters ++ base.symbols

/-- Toplevels that declare no type: variables, and whatever is no toplevel. -/
inductive Untyped : Tree → Prop
  | ofVariables {span span' : Option Span} {cost cost' : Cost} (args : List (Arg Tree)) :
    Untyped ⟨"Toplevel", "GivenVisibility", span, cost,
      .application [.node ⟨"Declaration", "Variable", span', cost', .application args⟩]⟩
  | other {t : Tree} (h : t.sort ≠ "Toplevel") : Untyped t

/-- The declarations stand among the toplevels, in order. -/
inductive Interleaves : List Tree → List Declaration → Prop
  | nil : Interleaves [] []
  | declaration {ts : List Tree} {ds : List Declaration} (tags visibility : Tree)
    (d : Declaration) (h : Interleaves ts ds) :
    Interleaves (d.toToplevel tags visibility :: ts) (d :: ds)
  | untyped {t : Tree} {ts : List Tree} {ds : List Declaration} (ht : Untyped t)
    (h : Interleaves ts ds) : Interleaves (t :: ts) ds

end Declaration

theorem mapM_map_of_ok {α β ε : Type} {read : β → Except ε α} {spell : α → β} {as : List α}
    (h : ∀ a ∈ as, read (spell a) = .ok a) : (as.map spell).mapM read = .ok as := by
  induction as with
  | nil => rfl
  | cons a as ih =>
    obtain ⟨ha, has⟩ := List.forall_mem_cons.1 h
    rw [List.map_cons, List.mapM_cons, bind_of_ok ha, bind_of_ok (ih has)]
    rfl

theorem QualifiedName.ofTree_toTree (n : QualifiedName) : ofTree n.toTree = .ok n := by
  have hparts : (n.parts.map Tree.escapedName).mapM Tree.requireName = .ok n.parts :=
    mapM_map_of_ok fun name _ => Tree.requireName_escapedName name
  obtain ⟨ps, hps, hread⟩ :=
    Tree.exists_requireList (t := n.toTree) (i := 0) rfl hparts "qualified name"
  have hname : ofParts? n.parts = some n := by simp [parts, ofParts?]
  rw [ofTree, if_neg (by simp [toTree, Tree.is, Tree.applied]), bind_of_ok hps, bind_of_ok hread,
    hname]
  rfl

theorem Builtin.ofTree_toTree (b : Builtin) : ofTree b.toTree = .ok b := by
  rw [ofTree, show b.toTree.constructor = b.constructor from rfl, ofConstructor?_constructor]

theorem TypeReference.ofTree_treeOf (name : QualifiedName) {parameters : List TypeExpr}
    (span : Option Span)
    (h : (TypeExpr.toTrees parameters).mapM TypeExpr.ofTree = .ok parameters) :
    ofTree (treeOf name (TypeExpr.toTrees parameters) span) = .ok ⟨name, parameters, span⟩ := by
  cases parameters with
  | nil =>
    rw [ofTree]
    show (QualifiedName.ofTree name.toTree >>= fun name =>
      (pure ⟨name, [], span⟩ : Except Error (TypeReference TypeExpr))) = _
    rw [bind_of_ok name.ofTree_toTree]
    rfl
  | cons e es =>
    obtain ⟨ps, hps, hread⟩ := Tree.exists_requireList
      (t := treeOf name (TypeExpr.toTrees (e :: es)) span) (i := 1) rfl h "user type"
    rw [ofTree]
    show (QualifiedName.ofTree name.toTree >>= fun name => Tree.requireList _ 1 "user type" >>=
      fun ps => ps.mapM (fun s => TypeExpr.ofTree s.1) >>= fun es =>
        (pure ⟨name, es, span⟩ : Except Error (TypeReference TypeExpr))) = _
    rw [bind_of_ok name.ofTree_toTree, bind_of_ok hps, bind_of_ok hread]
    rfl

theorem TypeArgument.ofTree_treeOf {type : TypeExpr}
    (h : TypeExpr.ofTree type.toTree = .ok type) (label : Option String) :
    ofTree (treeOf type.toTree label) = .ok ⟨type, label⟩ := by
  cases label with
  | none =>
    rw [ofTree]
    show (TypeExpr.ofTree type.toTree >>= fun type =>
      (pure ⟨type, none⟩ : Except Error (TypeArgument TypeExpr))) = _
    rw [bind_of_ok h]
    rfl
  | some label =>
    rw [ofTree]
    show (TypeExpr.ofTree type.toTree >>= fun type =>
      (Tree.escapedName label).requireName >>= fun label =>
        (pure ⟨type, some label⟩ : Except Error (TypeArgument TypeExpr))) = _
    rw [bind_of_ok h, bind_of_ok (Tree.requireName_escapedName label)]
    rfl

theorem TypeExpr.variableOfTree_free (name : String) :
    variableOfTree (.applied "TypeVar" "Free" [.node (.escapedName name)]) = .ok (name, none) := by
  rw [variableOfTree]
  show ((Tree.escapedName name).requireName >>= fun name => pure (name, none)) = _
  rw [bind_of_ok (Tree.requireName_escapedName name)]
  rfl

theorem TypeExpr.variableOfTree_bounded (name : String) {bound : TypeExpr}
    (h : ofTree bound.toTree = .ok bound) :
    variableOfTree (.applied "TypeVar" "Bounded" [.node (.escapedName name), .node bound.toTree]) =
      .ok (name, some bound) := by
  rw [variableOfTree]
  show ((Tree.escapedName name).requireName >>= fun name => ofTree bound.toTree >>= fun bound =>
    pure (name, some bound)) = _
  rw [bind_of_ok (Tree.requireName_escapedName name), bind_of_ok h]
  rfl

mutual
theorem TypeExpr.ofTree_toTree (e : TypeExpr) (h : ∀ s ∈ e.symbols, s.Expressible) :
    TypeExpr.ofTree e.toTree = .ok e := by
  match e with
  | .builtin b =>
    rw [TypeExpr.ofTree]
    show (Builtin.ofTree b.toTree >>= fun b => pure (TypeExpr.builtin b)) = _
    rw [bind_of_ok b.ofTree_toTree]
    rfl
  | .structured kind args =>
    have hargs := TypeArgument.mapM_ofTree_toTrees args h
    obtain ⟨ps, hps, hread⟩ := Tree.exists_requireList
      (t := .applied "StructuredType" "Default"
        [.node kind.toTree, .list (TypeArgument.toTrees args)]) (i := 1) rfl hargs "structured type"
    rw [TypeExpr.ofTree]
    show (Builtin.ofTree kind.toTree >>= fun kind => Tree.requireList _ 1 "structured type" >>=
      fun ps => ps.mapM (fun s => TypeArgument.ofTree s.1) >>= fun args =>
        pure (TypeExpr.structured kind args)) = _
    rw [bind_of_ok kind.ofTree_toTree, bind_of_ok hps, bind_of_ok hread]
    rfl
  | .user ⟨name, parameters, span⟩ =>
    have hparameters := TypeExpr.mapM_ofTree_toTrees parameters h
    rw [TypeExpr.ofTree]
    show (TypeReference.ofTree _ >>= fun r => pure (TypeExpr.user r)) = _
    rw [bind_of_ok (TypeReference.ofTree_treeOf name span hparameters)]
    rfl
  | .typeVar name none =>
    rw [TypeExpr.ofTree]
    show (TypeExpr.variableOfTree _ >>= fun v => pure (TypeExpr.typeVar v.1 v.2)) = _
    rw [bind_of_ok (TypeExpr.variableOfTree_free name)]
    rfl
  | .typeVar name (some bound) =>
    have hbound := TypeExpr.ofTree_toTree bound h
    rw [TypeExpr.ofTree]
    show (TypeExpr.variableOfTree _ >>= fun v => pure (TypeExpr.typeVar v.1 v.2)) = _
    rw [bind_of_ok (TypeExpr.variableOfTree_bounded name hbound)]
    rfl
  | .symbol s =>
    have hs : Symbol.ofTypeTree? (TypeExpr.symbol s).toTree = some s :=
      Symbol.ofTypeTree?_toTree (h s (List.mem_singleton_self s))
    rw [TypeExpr.ofTree]
    show (match Symbol.ofTypeTree? _ with | some s => pure (TypeExpr.symbol s) | none => _) = _
    rw [hs]
    rfl

theorem TypeExpr.mapM_ofTree_toTrees (es : List TypeExpr)
    (h : ∀ s ∈ TypeExpr.allSymbols es, s.Expressible) :
    (TypeExpr.toTrees es).mapM TypeExpr.ofTree = .ok es := by
  match es with
  | [] => rfl
  | e :: es =>
    obtain ⟨he, hes⟩ := List.forall_mem_append.1 h
    rw [TypeExpr.toTrees, List.mapM_cons, bind_of_ok (TypeExpr.ofTree_toTree e he),
      bind_of_ok (TypeExpr.mapM_ofTree_toTrees es hes)]
    rfl

theorem TypeArgument.mapM_ofTree_toTrees (as : List (TypeArgument TypeExpr))
    (h : ∀ s ∈ TypeArgument.symbols as, s.Expressible) :
    (TypeArgument.toTrees as).mapM TypeArgument.ofTree = .ok as := by
  match as with
  | [] => rfl
  | ⟨type, label⟩ :: as =>
    obtain ⟨htype, has⟩ := List.forall_mem_append.1 h
    have htype := TypeExpr.ofTree_toTree type htype
    rw [TypeArgument.toTrees, List.mapM_cons,
      bind_of_ok (TypeArgument.ofTree_treeOf htype label),
      bind_of_ok (TypeArgument.mapM_ofTree_toTrees as has)]
    rfl
end

theorem TypeReference.ofTree_toTree (r : TypeReference TypeExpr)
    (h : ∀ s ∈ TypeExpr.allSymbols r.parameters, s.Expressible) :
    TypeReference.ofTree r.toTree = .ok r :=
  TypeReference.ofTree_treeOf r.name r.span (TypeExpr.mapM_ofTree_toTrees r.parameters h)

namespace KeywordFormal

variable {fs : List KeywordFormal}

theorem ofTree_toTree (f : KeywordFormal) (h : ∀ s ∈ f.type.symbols, s.Expressible) :
    ofTree f.toTree = .ok f := by
  rw [ofTree]
  show (TypeExpr.ofTree f.type.toTree >>= fun type =>
    (Tree.escapedName f.name).requireName >>= fun name =>
      (pure ⟨type, name, f.default⟩ : Except Error KeywordFormal)) = _
  rw [bind_of_ok (f.type.ofTree_toTree h), bind_of_ok (Tree.requireName_escapedName f.name)]
  rfl

theorem listOfTree_of {block : Tree} (what : String)
    (hblock : block.listArg? 0 = some (fs.map toTree)) (h : ∀ s ∈ symbols fs, s.Expressible) :
    listOfTree block what = .ok fs := by
  have hfs : (fs.map toTree).mapM ofTree = .ok fs :=
    mapM_map_of_ok fun f hf => f.ofTree_toTree fun s hs => h s (List.mem_flatMap.2 ⟨f, hf, hs⟩)
  obtain ⟨ps, hps, hread⟩ := Tree.exists_requireList hblock hfs what
  rw [listOfTree, bind_of_ok hps, hread]

theorem commonOfTree_commonToTree (h : ∀ s ∈ symbols fs, s.Expressible) :
    commonOfTree (commonToTree fs) = .ok fs := by
  cases fs with
  | nil => rfl
  | cons f fs => exact listOfTree_of _ rfl h

end KeywordFormal

theorem Variant.ofTree_toTree (v : Variant) (h : ∀ s ∈ v.symbols, s.Expressible) :
    ofTree v.toTree = .ok v := by
  obtain ⟨name, arguments, keywords⟩ := v
  obtain ⟨harguments, hkeywords⟩ := List.forall_mem_append.1 h
  obtain ⟨ps, hps, hread⟩ := Tree.exists_requireList
    (t := toTree ⟨name, arguments, keywords⟩) (i := 1) rfl
    (TypeArgument.mapM_ofTree_toTrees arguments harguments) "variant"
  rw [ofTree]
  show ((Tree.escapedName name).requireName >>= fun name =>
    (toTree ⟨_, arguments, keywords⟩).requireList 1 "variant" >>= fun ps =>
      ps.mapM (fun s => TypeArgument.ofTree s.1) >>= fun arguments =>
      if (KeywordFormal.ownToTree keywords).constructor = "Default" then
        KeywordFormal.listOfTree (KeywordFormal.ownToTree keywords) "keyword formals" >>=
          fun keywords => (pure ⟨name, arguments, keywords⟩ : Except Error Variant)
      else pure [] >>= fun keywords => pure ⟨name, arguments, keywords⟩) = _
  rw [bind_of_ok (Tree.requireName_escapedName name), bind_of_ok hps, bind_of_ok hread]
  cases keywords with
  | nil => rfl
  | cons f fs =>
    rw [bind_of_ok (KeywordFormal.listOfTree_of _ rfl hkeywords)]
    rfl

namespace Declaration

variable {tags visibility : Tree}

theorem ofTree?_toTree (d : Declaration) (h : ∀ s ∈ d.symbols, s.Expressible) :
    ofTree? (d.toTree tags visibility) = .ok (some d) := by
  cases d with
  | data type keywords variants =>
    obtain ⟨h, hvariants⟩ := List.forall_mem_append.1 h
    obtain ⟨htype, hkeywords⟩ := List.forall_mem_append.1 h
    have hread : (variants.map Variant.toTree).mapM Variant.ofTree = .ok variants :=
      mapM_map_of_ok fun v hv => v.ofTree_toTree fun s hs =>
        hvariants s (List.mem_flatMap.2 ⟨v, hv, hs⟩)
    obtain ⟨ps, hps, hread⟩ := Tree.exists_requireList
      (t := (data type keywords variants).toTree tags visibility) (i := 4) rfl hread
      "data declaration"
    rw [ofTree?]
    show (TypeReference.ofTree type.toTree >>= fun r =>
      KeywordFormal.commonOfTree (KeywordFormal.commonToTree keywords) >>= fun fs =>
      Tree.requireList _ 4 "data declaration" >>= fun ps =>
      ps.mapM (fun s => Variant.ofTree s.1) >>= fun vs => pure (some (data r fs vs))) = _
    rw [bind_of_ok (type.ofTree_toTree htype),
      bind_of_ok (KeywordFormal.commonOfTree_commonToTree hkeywords), bind_of_ok hps,
      bind_of_ok hread]
    rfl
  | abstractData type keywords =>
    obtain ⟨htype, hkeywords⟩ := List.forall_mem_append.1 h
    rw [ofTree?]
    show (TypeReference.ofTree type.toTree >>= fun r =>
      KeywordFormal.commonOfTree (KeywordFormal.commonToTree keywords) >>= fun fs =>
      pure (some (abstractData r fs))) = _
    rw [bind_of_ok (type.ofTree_toTree htype),
      bind_of_ok (KeywordFormal.commonOfTree_commonToTree hkeywords)]
    rfl
  | synonym type base =>
    obtain ⟨htype, hbase⟩ := List.forall_mem_append.1 h
    rw [ofTree?]
    show (TypeReference.ofTree type.toTree >>= fun r => TypeExpr.ofTree base.toTree >>= fun e =>
      pure (some (synonym r e))) = _
    rw [bind_of_ok (type.ofTree_toTree htype), bind_of_ok (base.ofTree_toTree hbase)]
    rfl

theorem ofToplevel?_toToplevel (d : Declaration) (h : ∀ s ∈ d.symbols, s.Expressible) :
    ofToplevel? (d.toToplevel tags visibility) = .ok (some d) := by
  rw [ofToplevel?]
  exact d.ofTree?_toTree h

theorem ofToplevel?_of_untyped {t : Tree} (h : Untyped t) : ofToplevel? t = .ok none := by
  cases h with
  | ofVariables args =>
    rfl
  | other h =>
    rw [ofToplevel?, if_neg (fun ht => h ht.1), if_pos (by simp [Tree.is, h])]
    rfl

theorem Interleaves.collect_eq {ts : List Tree} {ds : List Declaration} (h : Interleaves ts ds)
    (hds : ∀ d ∈ ds, ∀ s ∈ d.symbols, s.Expressible) : collect ts = .ok ds := by
  have hread : ∃ found, ts.mapM ofToplevel? = .ok found ∧ found.filterMap id = ds := by
    induction h with
    | nil => exact ⟨[], rfl, rfl⟩
    | declaration tags visibility d h ih =>
      obtain ⟨hd, hds⟩ := List.forall_mem_cons.1 hds
      obtain ⟨found, hfound, rfl⟩ := ih hds
      refine ⟨some d :: found, ?_, by simp⟩
      rw [List.mapM_cons, bind_of_ok (d.ofToplevel?_toToplevel hd), bind_of_ok hfound]
      rfl
    | untyped ht h ih =>
      obtain ⟨found, hfound, rfl⟩ := ih hds
      refine ⟨none :: found, ?_, by simp⟩
      rw [List.mapM_cons, bind_of_ok (ofToplevel?_of_untyped ht), bind_of_ok hfound]
      rfl
  obtain ⟨found, hfound, rfl⟩ := hread
  rw [collect, bind_of_ok hfound]
  rfl

end Declaration

end ParseForest
