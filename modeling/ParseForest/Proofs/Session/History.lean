import ParseForest.Build.Roots
import ParseForest.Proofs.Session.Outcome

/-!
Histories of a session: the calls that were made on it, in order. A call that fails leaves the
session as it stands then. What the values of single nodes keep, every history keeps. Main
statement: `holds_sessionAfter`.
-/

namespace ParseForest.Builder

open Build

inductive Call where
  | value (node : NodeId)
  | convert (sort : String) (root : NodeId)
  | convertModule (root : NodeId)

variable (b : Builder)

def perform (s : Session) : Call → Session
  | .value node => (b.value node).after s
  | .convert sort root => (b.convert sort root).after s
  | .convertModule root => (b.convertModule root).after s

def sessionAfter (calls : List Call) : Session := calls.foldl b.perform .initial

variable {b} {J : Results → Prop}

theorem keeps_expectedAt {α : Type} (sort : String) (node : NodeId) :
    Keeps J (b.expectedAt sort node : Build α) :=
  keeps_bind (computes_liftChecked _).keeps fun _ =>
    keeps_bind keeps_get fun _ => (computes_throw _).keeps

variable (h : ∀ node, Keeps J (b.value node))
include h

theorem keeps_valueAt (sort : String) (node : NodeId) : Keeps J (b.valueAt sort node) := by
  refine keeps_bind (h node) fun tree? => ?_
  cases tree? with
  | none => exact keeps_expectedAt sort node
  | some tree => exact (computes_pure _).keeps

theorem keeps_firstValue (sort : String) (alts : List NodeId) :
    Keeps J (b.firstValue? sort alts) := by
  induction alts with
  | nil => exact (computes_pure _).keeps
  | cons alt alts ih =>
    refine keeps_bind (computes_liftChecked _).keeps fun found => ?_
    split
    · refine keeps_bind (h alt) fun tree? => ?_
      cases tree? with
      | none => exact ih
      | some tree => exact (computes_pure _).keeps
    · exact ih

theorem keeps_convertWithin (sort : String) (depth : Nat) (node : NodeId) :
    Keeps J (b.convertWithin sort depth node) := by
  induction depth generalizing node with
  | zero => exact (computes_throw _).keeps
  | succ depth ih =>
    refine keeps_bind (computes_liftChecked _).keeps fun n => ?_
    cases n with
    | derivation prod cs =>
      refine keeps_bind (computes_liftChecked _).keeps fun found => ?_
      refine keeps_bind (computes_liftChecked _).keeps fun p => ?_
      split
      · exact keeps_valueAt h sort node
      · refine keeps_bind (computes_liftChecked _).keeps fun inner? => ?_
        cases inner? with
        | none => exact keeps_expectedAt sort node
        | some inner =>
          refine keeps_bind (computes_liftChecked _).keeps fun isAmbiguity => ?_
          split
          · exact keeps_valueAt h sort inner
          · exact ih inner
    | ambiguity alts =>
      refine keeps_bind (keeps_firstValue h sort alts) fun tree? => ?_
      cases tree? with
      | none => exact keeps_expectedAt sort node
      | some tree => exact (computes_pure _).keeps
    | _ => exact (computes_throw _).keeps

theorem keeps_headerModule (node : NodeId) : Keeps J (b.headerModule node) := by
  refine keeps_bind (computes_liftChecked _).keeps fun cs => ?_
  cases cs.head? with
  | none => exact (computes_throw _).keeps
  | some header =>
    refine keeps_bind (keeps_valueAt h _ _) fun _ => ?_
    refine keeps_bind (computes_liftChecked _).keeps fun _ => ?_
    exact keeps_bind (computes_lift _).keeps fun _ => (computes_lift _).keeps

theorem keeps_convertModuleAt (root node : NodeId) : Keeps J (b.convertModuleAt root node) := by
  refine keeps_bind (computes_liftChecked _).keeps fun sort => ?_
  split
  · exact keeps_valueAt h sort node
  · split
    · exact keeps_headerModule h node
    · exact keeps_convertWithin h _ _ _

theorem keeps_convertModule (root : NodeId) : Keeps J (b.convertModule root) := by
  refine keeps_bind (computes_liftChecked _).keeps fun n => ?_
  cases n with
  | derivation prod cs => exact keeps_convertModuleAt h root root
  | ambiguity alts =>
    refine keeps_bind (computes_liftChecked _).keeps fun readings => ?_
    rcases readings with _ | ⟨node, _ | _⟩
    · exact keeps_convertWithin h _ _ _
    · exact keeps_convertModuleAt h root node
    · exact keeps_bind (computes_liftChecked _).keeps fun _ => (computes_throw _).keeps
  | _ => exact keeps_convertWithin h _ _ _

theorem holds_perform (call : Call) {s : Session} (hs : J s.results) :
    J (b.perform s call).results := by
  cases call with
  | value node => exact (h node s hs).2
  | convert sort root => exact (keeps_convertWithin h sort _ root s hs).2
  | convertModule root => exact (keeps_convertModule h root s hs).2

theorem holds_performed (calls : List Call) {s : Session} (hs : J s.results) :
    J (calls.foldl b.perform s).results := by
  induction calls generalizing s with
  | nil => exact hs
  | cons call calls ih => exact ih (holds_perform h call hs)

theorem holds_sessionAfter (hj : J Session.initial.results) (calls : List Call) :
    J (b.sessionAfter calls).results :=
  holds_performed h calls hj

theorem holds_sessionAfter_append {calls : List Call} (hj : J (b.sessionAfter calls).results)
    (more : List Call) : J (b.sessionAfter (calls ++ more)).results := by
  rw [sessionAfter, List.foldl_append]
  exact holds_performed h more hj

end ParseForest.Builder
