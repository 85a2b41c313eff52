import ParseForest.Types.Env

/-! Types of type expressions, given the types declared so far. -/

namespace ParseForest.TypeEnv

mutual
def typeOf (env : TypeEnv) : TypeExpr → Except Error Ty
  | .builtin b => .ok (.builtin b)
  | .structured kind args => do return .structured kind (← argumentTypes env args)
  | .user ⟨name, parameters, _⟩ =>
    match env.lookup? name with
    | none => .error (.undeclaredType name.render)
    | some declared =>
      if parameters.isEmpty then .ok declared
      else do return declared.instantiate (← typesOf env parameters)
  | .typeVar name none => .ok (.parameter name .value)
  | .typeVar name (some bound) => do return .parameter name (← typeOf env bound)
  | .symbol s => .ok (.nonterminal s)
termination_by structural e => e

def typesOf (env : TypeEnv) : List TypeExpr → Except Error (List Ty)
  | [] => .ok []
  | e :: es => do return (← typeOf env e) :: (← typesOf env es)
termination_by structural es => es

def argumentTypes (env : TypeEnv) : List (TypeArgument TypeExpr) → Except Error (List Ty)
  | [] => .ok []
  | ⟨e, _⟩ :: es => do return (← typeOf env e) :: (← argumentTypes env es)
termination_by structural es => es
end

def formalsOf (env : TypeEnv) (type : TypeReference TypeExpr) : Except Error (List Ty) :=
  type.parameters.mapM fun
    | .typeVar name bound => env.typeOf (.typeVar name bound)
    | _ => .error (.expected "type variable" type.span)

def declaredName (type : TypeReference TypeExpr) : Except Error String :=
  if type.name.isQualified then .error (.qualifiedDeclaration type.name.render)
  else .ok type.name.name

/-- The fields of a constructor; one without a label is named for its place, counted from
`index`. -/
def fieldsOf (env : TypeEnv) (index : Nat) :
    List (TypeArgument TypeExpr) → Except Error (List Field)
  | [] => .ok []
  | arg :: args => do
    let type ← env.typeOf arg.type
    return ⟨arg.label.getD s!"arg{index}", type⟩ :: (← env.fieldsOf (index + 1) args)

def keywordsFor (env : TypeEnv) (formals : List KeywordFormal) :
    Except Error (List (String × Keyword)) :=
  formals.mapM fun k => do return (k.name, ⟨← env.typeOf k.type, k.default⟩)

end ParseForest.TypeEnv
