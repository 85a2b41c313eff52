import ParseForest.Proofs.Declaration.Spelling

/-!
The readers of declarations, by the arguments that they look at. Each reader is spelled with the
trees in the places of its argument, whatever was proved of their sizes, and a tree with another
argument in one place looks the same in all others.
-/

namespace ParseForest

open Success

namespace Tree

variable {α β : Type} {t u : Tree} {i j : Nat} {what : String}

def setArg (t : Tree) (i : Nat) (a : Arg Tree) : Tree :=
  match t.body with
  | .application args => { t with body := .application (args.set i a) }
  | _ => t

@[simp] theorem sort_setArg (a : Arg Tree) : (t.setArg i a).sort = t.sort := by
  unfold setArg
  split <;> rfl

@[simp] theorem constructor_setArg (a : Arg Tree) :
    (t.setArg i a).constructor = t.constructor := by
  unfold setArg
  split <;> rfl

@[simp] theorem span_setArg (a : Arg Tree) : (t.setArg i a).span = t.span := by
  unfold setArg
  split <;> rfl

@[simp] theorem is_setArg (a : Arg Tree) (sort constructor : String) :
    (t.setArg i a).is sort constructor = t.is sort constructor := by simp [Tree.is]

@[simp] theorem isAmbiguity_setArg (a : Arg Tree) :
    (t.setArg i a).isAmbiguity = t.isAmbiguity := by
  unfold setArg
  split
  · next h => simp [isAmbiguity, h, Body.isAmbiguity]
  · rfl

theorem args_setArg (a : Arg Tree) : (t.setArg i a).args = t.args.set i a := by
  unfold setArg
  split
  · next h => simp [args, h]
  · next h =>
    rw [args]
    split
    · next args hargs => exact absurd hargs (h args)
    · rfl

theorem arg?_setArg_of_ne (h : i ≠ j) (a : Arg Tree) : (t.setArg i a).arg? j = t.arg? j := by
  rw [arg?, args_setArg, List.getElem?_set_ne h]
  rfl

theorem arg?_setArg_self {a a' : Arg Tree} (h : t.arg? i = some a') :
    (t.setArg i a).arg? i = some a := by
  rw [arg?, args_setArg, List.getElem?_set_self]
  exact (List.getElem?_eq_some_iff.1 h).1

def nodeOr (t : Tree) (i : Nat) (what : String) : Except Error Tree :=
  (·.1) <$> t.requireNode i what

def listOr (t : Tree) (i : Nat) (what : String) : Except Error (List Tree) :=
  (·.map (·.1)) <$> t.requireList i what

theorem nodeOr_eq : t.nodeOr i what =
    match t.nodeArg? i with
    | some s => .ok s
    | none => t.malformed what := by
  rw [nodeOr, requireNode, ← map_nodePart?]
  cases t.nodePart? i <;> rfl

theorem listOr_eq : t.listOr i what =
    match t.listArg? i with
    | some ts => .ok ts
    | none => t.malformed what := by
  rw [listOr, requireList, ← map_listPart?]
  cases t.listPart? i <;> rfl

theorem nodeOr_eq_ok : t.nodeOr i what = .ok u ↔ t.nodeArg? i = some u := by
  rw [nodeOr_eq]
  cases t.nodeArg? i <;> simp [malformed]

theorem listOr_eq_ok {ts : List Tree} : t.listOr i what = .ok ts ↔ t.listArg? i = some ts := by
  rw [listOr_eq]
  cases t.listArg? i <;> simp [malformed]

theorem requireName_eq_ok {name : String} : t.requireName = .ok name ↔
    ∃ text, t.text? = some text ∧ Text.withoutLeading "\\" text = name := by
  rw [requireName]
  cases t.text? <;> simp [malformed]

theorem nodeOr_of (h : t.arg? i = some (.node u)) (what : String) : t.nodeOr i what = .ok u := by
  rw [nodeOr_eq, nodeArg?, h]
  rfl

theorem listOr_of {ts : List Tree} (h : t.arg? i = some (.list ts)) (what : String) :
    t.listOr i what = .ok ts := by
  rw [listOr_eq, listArg?, h]
  rfl

@[simp] theorem malformed_setArg (a : Arg Tree) :
    ((t.setArg i a).malformed what : Except Error α) = t.malformed what := by simp [malformed]

theorem nodeOr_setArg_of_ne (h : i ≠ j) (a : Arg Tree) :
    (t.setArg i a).nodeOr j what = t.nodeOr j what := by
  rw [nodeOr_eq, nodeOr_eq, nodeArg?, arg?_setArg_of_ne h, malformed_setArg]
  rfl

theorem listOr_setArg_of_ne (h : i ≠ j) (a : Arg Tree) :
    (t.setArg i a).listOr j what = t.listOr j what := by
  rw [listOr_eq, listOr_eq, listArg?, arg?_setArg_of_ne h, malformed_setArg]
  rfl

theorem requireNode_bind (k : Tree → Except Error β) :
    (t.requireNode i what >>= fun p => k p.1) = t.nodeOr i what >>= k := by
  rw [nodeOr]
  cases t.requireNode i what <;> rfl

theorem requireList_bind (read : Tree → Except Error α) (k : List α → Except Error β) :
    (t.requireList i what >>= fun ps => ps.mapM (fun p => read p.1) >>= k) =
      t.listOr i what >>= fun ts => ts.mapM read >>= k := by
  rw [listOr]
  cases t.requireList i what with
  | error e => rfl
  | ok ps => exact congrArg (· >>= k) (List.mapM_map ..).symm

end Tree

open ParseForest.Tree

theorem QualifiedName.ofTree_eq (t : Tree) : ofTree t = (do
    if !t.is "QualifiedName" "Default" then t.malformed "qualified name"
    else
      let parts ← (← t.listOr 0 "qualified name").mapM requireName
      match ofParts? parts with
      | some name => return name
      | none => t.malformed "qualified name") := by
  rw [ofTree, eq_comm]
  apply Eq.trans
  · -- Only one side is rewritten: what is left of the two unfolds to the same term.
    simp only [← requireList_bind]
    rfl
  · rfl

theorem TypeReference.ofTree_eq (t : Tree) : ofTree t = (do
    let name ← QualifiedName.ofTree (← t.nodeOr 0 "user type")
    match t.constructor with
    | "Name" => return ⟨name, [], t.span⟩
    | "Parametric" =>
      let parameters ← (← t.listOr 1 "user type").mapM TypeExpr.ofTree
      return ⟨name, parameters, t.span⟩
    | _ => t.malformed "user type") := by
  rw [ofTree, eq_comm]
  apply Eq.trans
  · simp only [← requireNode_bind, ← requireList_bind]
    rfl
  · rfl

def TypeExpr.structuredOfTree (t : Tree) :
    Except Error (Builtin × List (TypeArgument TypeExpr)) := do
  let kind ← Builtin.ofTree (← t.nodeOr 0 "structured type")
  return (kind, ← (← t.listOr 1 "structured type").mapM TypeArgument.ofTree)

def TypeExpr.formOf (constructor : String) (t : Tree) : Except Error TypeExpr := do
  let inner ← t.nodeOr 0 "type"
  match constructor with
  | "Basic" => return .builtin (← Builtin.ofTree inner)
  | "Structured" =>
    let (kind, arguments) ← structuredOfTree inner
    return .structured kind arguments
  | "User" => return .user (← TypeReference.ofTree inner)
  | "Variable" =>
    let (name, bound) ← variableOfTree inner
    return .typeVar name bound
  | "Symbol" => match Symbol.ofTypeTree? t with
    | some s => return .symbol s
    | none => t.malformed "symbol type"
  | "Bracket" => ofTree inner
  | _ => t.malformed "type"

theorem TypeExpr.ofTree_eq (t : Tree) : ofTree t =
    if t.sort ≠ "Type" then t.malformed "type" else formOf t.constructor t := by
  rw [ofTree, eq_comm]
  apply Eq.trans
  · simp only [formOf, structuredOfTree, ← requireNode_bind, ← requireList_bind, bind_assoc,
      pure_bind]
    rfl
  · rfl

theorem TypeExpr.variableOfTree_eq (t : Tree) : variableOfTree t = (do
    let name ← (← t.nodeOr 0 "type variable").requireName
    match t.constructor with
    | "Free" => return (name, none)
    | "Bounded" => return (name, some (← ofTree (← t.nodeOr 1 "type variable")))
    | _ => t.malformed "type variable") := by
  rw [variableOfTree, eq_comm]
  apply Eq.trans
  · simp only [← requireNode_bind]
    rfl
  · rfl

theorem TypeArgument.ofTree_eq (t : Tree) : ofTree t = (do
    let type ← TypeExpr.ofTree (← t.nodeOr 0 "type argument")
    match t.constructor with
    | "Default" => return ⟨type, none⟩
    | "Named" => return ⟨type, some (← (← t.nodeOr 1 "type argument").requireName)⟩
    | _ => t.malformed "type argument") := by
  rw [ofTree, eq_comm]
  apply Eq.trans
  · simp only [← requireNode_bind]
    rfl
  · rfl

namespace KeywordFormal

theorem ofTree_eq (t : Tree) : ofTree t = (do
    if !t.is "KeywordFormal" "Default" then t.malformed "keyword formal"
    else
      let type ← TypeExpr.ofTree (← t.nodeOr 0 "keyword formal")
      let name ← (← t.nodeOr 1 "keyword formal").requireName
      return ⟨type, name, ← t.nodeOr 2 "keyword formal"⟩) := by
  rw [ofTree]
  simp only [← requireNode_bind]

theorem listOfTree_eq (block : Tree) (what : String) :
    listOfTree block what = block.listOr 0 what >>= (·.mapM ofTree) := by
  rw [listOfTree, listOr]
  cases block.requireList 0 what with
  | error e => rfl
  | ok ps =>
    show ps.mapM (fun p => ofTree p.1) = (ps.map (·.1)).mapM ofTree
    rw [List.mapM_map]
    rfl

def ownOfTree (block : Tree) : Except Error (List KeywordFormal) :=
  if block.constructor = "Default" then listOfTree block "keyword formals" else .ok []

end KeywordFormal

theorem Variant.ofTree_eq (t : Tree) : ofTree t = (do
    if !t.is "Variant" "NAryConstructor" then t.malformed "variant"
    else
      let block ← t.nodeOr 2 "variant"
      let name ← (← t.nodeOr 0 "variant").requireName
      let arguments ← (← t.listOr 1 "variant").mapM TypeArgument.ofTree
      return ⟨name, arguments, ← KeywordFormal.ownOfTree block⟩) := by
  have hown : ∀ (block : Tree) (k : List KeywordFormal → Except Error Variant),
      (if block.constructor = "Default" then
        KeywordFormal.listOfTree block "keyword formals" >>= k else pure [] >>= k) =
      KeywordFormal.ownOfTree block >>= k := by
    intro block k
    unfold KeywordFormal.ownOfTree
    split <;> rfl
  rw [ofTree]
  simp only [← hown, ← requireNode_bind, ← requireList_bind]

namespace Declaration

def formOf? (constructor : String) (t : Tree) : Except Error (Option Declaration) :=
  match constructor with
  | "Data" => do
    let type ← TypeReference.ofTree (← t.nodeOr 2 "data declaration")
    let keywords ← KeywordFormal.commonOfTree (← t.nodeOr 3 "data declaration")
    let variants ← (← t.listOr 4 "data declaration").mapM Variant.ofTree
    return some (.data type keywords variants)
  | "DataAbstract" => do
    let type ← TypeReference.ofTree (← t.nodeOr 2 "data declaration")
    let keywords ← KeywordFormal.commonOfTree (← t.nodeOr 3 "data declaration")
    return some (.abstractData type keywords)
  | "Alias" => do
    let type ← TypeReference.ofTree (← t.nodeOr 2 "alias declaration")
    return some (.synonym type (← TypeExpr.ofTree (← t.nodeOr 3 "alias declaration")))
  | _ => .ok none

theorem ofTree?_eq (t : Tree) : ofTree? t =
    if t.sort ≠ "Declaration" then t.malformed "declaration"
    else if t.isAmbiguity then .error (.ambiguousDeclaration t.span)
    else formOf? t.constructor t := by
  rw [ofTree?]
  simp only [formOf?, ← requireNode_bind, ← requireList_bind]
  rfl

theorem ofToplevel?_eq (t : Tree) : ofToplevel? t = (do
    if t.sort = "Toplevel" ∧ t.isAmbiguity then throw (.ambiguousDeclaration t.span)
    else if !t.is "Toplevel" "GivenVisibility" then return none
    else ofTree? (← t.nodeOr 0 "toplevel")) := by
  rw [ofToplevel?]
  simp only [← requireNode_bind]

end Declaration

end ParseForest
