import ParseForest.Proofs.Reading.Flags
import ParseForest.Proofs.Registry.Reserved

/-!
Trees that are read conform to the registry: every node outside of images has a constructor of its
sort, and holds what that constructor is registered for. Main statement: `conforms_of_answers`.
-/

namespace ParseForest

def Body.kinds {α : Type} : Body α → List ArgKind
  | application args => args.map Arg.kind
  | lexical _ => [.text]
  | ambiguity _ => [.list]
  | image .. | token _ => []

namespace Tree

/-- The registry has the constructor of the tree in its sort, with the shape of what the tree holds;
tied readings and tokens are under their reserved constructors, tokens in lexical sorts only. -/
structure Fits (r : Registry) (t : Tree) : Prop where
  shape : r.shape? t.sort t.constructor = some t.body.kinds
  ambiguity : ∀ ts, t.body = .ambiguity ts → t.constructor = Registry.ambiguityName
  lexical : ∀ s, t.body = .lexical s →
    t.constructor = Registry.lexicalName ∧ r.isLexical t.sort = true

def Conforms (r : Registry) (t : Tree) : Prop :=
  ∀ s, t.Contains s → s.isImage = false → s.Fits r

theorem conforms_of_parts {r : Registry} {t : Tree} (h : t.isImage = false → t.Fits r)
    (hparts : ∀ s ∈ t.body.subtrees, s.Conforms r) : t.Conforms r := by
  intro u hu
  rcases contains_iff.1 hu with rfl | ⟨s, hs, hsu⟩
  · exact h
  · exact hparts s hs u hsu

theorem Conforms.marked {r : Registry} {t : Tree} (h : t.Conforms r) (span : Option Span)
    (cost : Cost) : Conforms r { t with span, cost } := by
  refine conforms_of_parts (fun himage => ?_) fun s hs u hu => h u (.head hs hu)
  obtain ⟨shape, ambiguity, lexical⟩ := h t .refl himage
  exact ⟨shape, ambiguity, lexical⟩

end Tree

namespace Registry

variable {r : Registry} {sort name : String} {span : Option Span} {args : List (Arg Tree)}
  {cost : Cost} {t : Tree}

theorem shape?_of_make (h : r.make sort name span args cost = .ok t) :
    r.shape? sort name = some (args.map Arg.kind) := by
  unfold make at h
  split at h
  next => cases h
  next c hc =>
    split at h
    next hshape => simp [shape?, hc, hshape]
    next => cases h

theorem conforms_of_make (hr : r.WithoutFactories) (hu : r.Untouched)
    (h : r.make sort name span args cost = .ok t)
    (hargs : ∀ s ∈ args.flatMap Arg.trees, s.Conforms r) : t.Conforms r := by
  have hshape := shape?_of_make h
  cases eq_of_make hr h
  refine Tree.conforms_of_parts (fun _ => ?_) ?_
  · obtain ⟨ts, rfl, rfl, hbody⟩ | ⟨s, rfl, rfl, hbody⟩ | hbody := defaultBody_cases name args
    all_goals rw [hbody]
    · exact ⟨hshape, fun _ _ => rfl, nofun⟩
    · exact ⟨hshape, nofun, fun _ _ => ⟨rfl, hu.isLexical hshape⟩⟩
    · exact ⟨hshape, nofun, nofun⟩
  · rw [subtrees_defaultBody]
    exact hargs

end Registry

namespace Builder

variable {b : Builder}

theorem sustains_conforms (hr : b.registry.WithoutFactories) (hu : b.registry.Untouched) :
    b.Sustains (Tree.Conforms b.registry) where
  token sort span text t ht := Registry.conforms_of_make hr hu ht (by simp [Arg.trees])
  application sort name span args cost t _ _ hargs _ ht := Registry.conforms_of_make hr hu ht hargs
  ambiguity sort span alts cost t halts _ ht :=
    Registry.conforms_of_make hr hu ht (by simpa [Arg.trees] using halts)
  leaf sort span l := Tree.conforms_of_parts nofun nofun
  branch sort span shape ts cost _ hts _ := Tree.conforms_of_parts nofun hts
  tied sort span ts cost hts _ := Tree.conforms_of_parts nofun hts
  recost t cost ht _ := ht.marked t.span cost

/-- After any calls and in any forest, a tree that a call gives conforms to the registry, at every
depth and inside of fragments as well. -/
theorem conforms_of_answers (hr : b.registry.WithoutFactories) (hu : b.registry.Untouched)
    {calls : List Call} {call : Call} {t : Tree}
    (h : b.Answers (b.sessionAfter calls) t call) : t.Conforms b.registry :=
  (sustains_conforms hr hu).of_answers h

theorem conforms_sharedPair :
    let x : Tree := ⟨"Id", "Lexical", none, .zero, .lexical "x"⟩
    let var : Tree := ⟨"Exp", "Var", none, .zero, .application [.node x]⟩
    let ref : Tree := ⟨"Exp", "Ref", none, .zero, .application [.node x]⟩
    let either : Tree :=
      ⟨"Exp", "Ambiguity", none, Cost.zero.withAmbiguous true, .ambiguity [var, ref]⟩
    let pair : Tree :=
      ⟨"Exp", "Pair", none, Cost.zero.withAmbiguous true, .application [.node either, .node either]⟩
    sharedPair.Answers (sharedPair.sessionAfter [.value 4]) pair (.value 7) ∧
      pair.Conforms sharedPair.registry := by
  intro x var ref either pair
  have hread : sharedPair.Answers (sharedPair.sessionAfter [.value 4]) pair (.value 7) := by
    unfold Answers
    decide +kernel
  refine ⟨hread, conforms_of_answers ?_ ?_ hread⟩
  · exact (Registry.withoutFactories_empty.define _).define _
  · exact (Registry.Untouched.empty.define (by decide)).define (by decide)

end Builder

end ParseForest
