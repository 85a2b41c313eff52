import ParseForest.Conventions
import ParseForest.Error
import ParseForest.Forest.Query
import ParseForest.Registry.Basic
import ParseForest.Trace

/-!
The state that the readings of one forest share: results that are kept, the events so far, and the
span of the last derivation that was built. An error leaves the state as it stands when it arises.
-/

namespace ParseForest

structure Builder where
  forest : Forest
  registry : Registry
  conventions : Conventions

structure Session where
  /-- Results by node; `none` is the result of a derivation that was filtered out. -/
  results : Table (Memory × NodeId) (Option Tree)
  lastSuccess : Option Span
  events : Array Event

namespace Session

def initial : Session := ⟨.empty, none, #[]⟩

def kept? (s : Session) (memory : Memory) (node : NodeId) : Option (Option Tree) :=
  s.results.get? (memory, node)

def keep (s : Session) (memory : Memory) (node : NodeId) (result : Option Tree) : Session :=
  { s with results := s.results.insert (memory, node) result }

end Session

abbrev Build := EStateM Error Session

namespace Build

instance : MonadLift Checked Build where
  monadLift
    | .ok a => pure a
    | .error b => throw (.breach b)

instance : MonadLift (Except Error) Build where
  monadLift
    | .ok a => pure a
    | .error e => throw e

def defect {α : Type} (d : Defect) : Build α := throw (.defect d)

def record (e : Event) : Build Unit := modify fun s => { s with events := s.events.push e }

/-- Builds a result once for each node: later on the result that was kept is used. Errors are not
kept. -/
def once (memory : Memory) (node : NodeId) (build : Build (Option Tree)) :
    Build (Option Tree) := do
  match (← get).kept? memory node with
  | some result =>
    record (.hit node memory)
    return result
  | none =>
    let result ← build
    modify (·.keep memory node result)
    return result

def attempt {α : Type} (x : Build α) : Build (Except Error α) := fun s =>
  match x s with
  | .ok a s => .ok (.ok a) s
  | .error e s => if e.isAmbiguity then .ok (.error e) s else .error e s

def collect {α β : Type} (step : α → Build (Option β)) : List α → Build (Option (List β))
  | [] => return some []
  | a :: as => do
    match ← step a with
    | none => return none
    | some b => return (← collect step as).map (b :: ·)

end Build

structure Descent where
  value : NodeId → Build (Option Tree)
  run : NodeId → Build (Option (List Tree))
  choice : NodeId → Build (Option (List Tree))
  image : NodeId → Build (Option Tree)

namespace Descent

def ended : Descent where
  value _ := throw (.breach .endlessDerivation)
  run _ := throw (.breach .endlessDerivation)
  choice _ := throw (.breach .endlessDerivation)
  image _ := throw (.breach .endlessDerivation)

/-- The descent that is chosen when a node is reached, by the session at that moment. -/
def inSession (choose : Session → Descent) : Descent where
  value node := do (choose (← get)).value node
  run node := do (choose (← get)).run node
  choice node := do (choose (← get)).choice node
  image node := do (choose (← get)).image node

end Descent

end ParseForest
