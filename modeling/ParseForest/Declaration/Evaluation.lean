import ParseForest.Declaration.OfTree
import ParseForest.Declaration.Resolution
import ParseForest.Types.Journal

/-!
Evaluation of declarations, which may refer to each other in any order. Data types and synonyms are
declared first, data types queued before synonyms; one that refers to a type not declared yet waits,
and when none of those waiting can be declared the failure of the last stands. Constructors and
keyword parameters follow, those of data types without constructors first.
-/

namespace ParseForest.Declare

inductive Pending where
  | data (type : TypeReference TypeExpr)
  | synonym (type : TypeReference TypeExpr) (base : TypeExpr)

def dataType (type : TypeReference TypeExpr) : Declare Ty := do
  let name ← TypeEnv.declaredName type
  let formals ← (← env).formalsOf type
  data name formals

def Pending.declare : Pending → Declare Unit
  | .data type => discard (dataType type)
  | .synonym type base => do
    let base ← (← env).typeOf base
    let name ← TypeEnv.declaredName type
    let formals ← (← env).formalsOf type
    discard (Declare.synonym name formals base)

def attempt (x : Declare Unit) : Declare (Except Error Unit) := fun j =>
  match x j with
  | .ok a j => .ok (.ok a) j
  | .error e j => if e.isUndeclaredType then .ok (.error e) j else .error e j

/-- Tries `first` and then `rest` until one of them can be declared. The `count` that are left are
those not tried yet and then, in order, those that failed. -/
def advance (count : Nat) (failed : List Pending) (first : Pending) (rest : List Pending)
    (total : failed.length + rest.length = count) :
    Declare { left : List Pending // left.length = count } := do
  match ← attempt first.declare with
  | .ok _ => return ⟨rest ++ failed, by simp; omega⟩
  | .error e => match rest, total with
    | [], _ => throw e
    | next :: rest, total => advance count (failed ++ [first]) next rest (by simp at total ⊢; omega)

def settle (waiting : List Pending) : Declare Unit :=
  match waiting with
  | [] => return
  | first :: rest => do
    let ⟨left, _⟩ ← advance rest.length [] first rest (by simp)
    settle left
termination_by waiting.length

def commonKeywords (type : Ty) (formals : List KeywordFormal) : Declare Unit := do
  match formals, type.declaredName? with
  | _ :: _, some name => keywords (.data name) (← (← env).keywordsFor formals)
  | _, _ => return

def variants (type : Ty) (data : String) (seen : List String) : List Variant → Declare Unit
  | [] => return
  | v :: vs => do
    if v.name ∈ seen then throw (.redeclaredType v.name)
    constructor type v.name (← (← env).fieldsOf 0 v.arguments)
    if !v.keywords.isEmpty then
      keywords (.constructor data v.name) (← (← env).keywordsFor v.keywords)
    variants type data (v.name :: seen) vs

end Declare

namespace Declaration

open Declare

def pendingData : Declaration → Option Pending
  | data type _ _ | abstractData type _ => some (.data type)
  | synonym .. => none

def pendingSynonym : Declaration → Option Pending
  | synonym type base => some (.synonym type base)
  | _ => none

def evaluateAbstract : Declaration → Declare Unit
  | abstractData type formals => do commonKeywords (← dataType type) formals
  | _ => return

def evaluateData : Declaration → Declare Unit
  | data type formals vs => do
    let declared ← dataType type
    commonKeywords declared formals
    variants declared (← TypeEnv.declaredName type) [] vs
  | _ => return

def evaluate (declarations : List Declaration) : Declare Unit := do
  settle (declarations.filterMap pendingData ++ declarations.filterMap pendingSynonym)
  declarations.forM evaluateAbstract
  declarations.forM evaluateData

def evaluateToplevels (toplevels : List Tree) : Declare Unit := do
  evaluate (← collect toplevels)

def evaluateModule (module : Tree) : Declare Unit :=
  evaluateToplevels ((module.nodeArg? 1 >>= (·.listArg? 0)).getD [])

end Declaration

end ParseForest
