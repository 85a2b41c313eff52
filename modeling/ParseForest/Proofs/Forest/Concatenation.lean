import Mathlib.Data.List.Sort
import ParseForest.Proofs.Forest.Construction

/-!
The text of what is built. A node over children covers their texts, one after the other, also where
partial lists among them were spliced; a cluster covers the text of its smallest alternative,
whatever the order in which the alternatives were passed. No later call changes the text of a node
that is there. Main statements: `Forest.Acyclic.text_push`, `Forest.texts_of_splice`,
`Forest.Grows.yieldText`, `Site.built_text`.
-/

namespace ParseForest

open Success

def Node.joins : Node → Bool
  | derivation .. | list .. | optional .. => true
  | _ => false

namespace Forest

variable {f f' : Forest} {id : NodeId} {cs : List NodeId} {prod : ProdId}

/-- The text that a node covers, and nothing where there is no such node. -/
def text (f : Forest) (id : NodeId) : String := (f.yieldText id).toOption.getD ""

theorem Acyclic.yieldText_eq (hf : f.Acyclic) (hid : id < f.size) :
    f.yieldText id = .ok (f.text id) := by
  obtain ⟨s, hs⟩ := hf.exists_yieldText hid
  rw [text, hs]
  rfl

theorem Acyclic.mapM_yieldText (hf : f.Acyclic) (hcs : ∀ c ∈ cs, c < f.size) :
    cs.mapM f.yieldText = .ok (cs.map f.text) := by
  induction cs with
  | nil => rfl
  | cons c cs ih =>
    obtain ⟨hc, hcs⟩ := List.forall_mem_cons.1 hcs
    rw [List.mapM_cons, hf.yieldText_eq hc, ih hcs]
    rfl

theorem Grows.yieldText (h : f.Grows f') (hf : f.Acyclic) (hid : id < f.size) :
    f'.yieldText id = f.yieldText id := by
  have hwithin : ∀ depth id, id < f.size → f'.yieldWithin depth id = f.yieldWithin depth id := by
    intro depth
    induction depth with
    | zero => exact fun _ _ => rfl
    | succ depth ih =>
      intro id hid
      unfold yieldWithin
      rw [h.node id hid]
      refine bind_congr_ok fun n hn => ?_
      have hchildren : n.children.mapM (f'.yieldWithin depth) =
          n.children.mapM (f.yieldWithin depth) :=
        mapM_congr fun c hc => ih c (hf.child_lt hn hc)
      cases n with
      | derivation | list => exact congrArg (String.join <$> ·) hchildren
      | optional _ c =>
        cases c with
        | none => rfl
        | some c => exact ih c (hf.child_lt hn (List.mem_singleton_self c))
      | ambiguity alts =>
        cases alts with
        | nil => rfl
        | cons first => exact ih first (hf.alternative_lt hn List.mem_cons_self)
      | _ => rfl
  rw [Forest.yieldText, hwithin _ id hid]
  exact hf.yieldWithin_eq_yieldText hid (Nat.lt_succ_of_lt (Nat.lt_of_lt_of_le hid h.size))

theorem Grows.text (h : f.Grows f') (hf : f.Acyclic) (hid : id < f.size) :
    f'.text id = f.text id := by
  rw [Forest.text, h.yieldText hf hid, ← Forest.text]

theorem Acyclic.yieldText_of_joins (hf : f.Acyclic) {n : Node} (hn : f.node id = .ok n)
    (hj : n.joins = true) : f.yieldText id = .ok (String.join (n.children.map f.text)) := by
  have hcs : n.children.mapM f.yieldText = .ok (n.children.map f.text) :=
    hf.mapM_yieldText fun c hc => hf.child_lt hn hc
  have hjoined : f.yieldText id = String.join <$> n.children.mapM f.yieldText := by
    cases n with
    | derivation => exact hf.yieldText_of_derivation hn
    | list => exact hf.yieldText_of_list hn
    | optional => exact hf.yieldText_of_optional hn
    | _ => cases hj
  rw [hjoined, hcs]
  rfl

theorem Acyclic.text_push {n : Node} (hf : f.Acyclic) (hj : n.joins = true)
    (hn : ∀ c ∈ n.children, c < f.size) :
    (f.push n).1.yieldText (f.push n).2 = .ok (String.join (n.children.map f.text)) := by
  have hbelow : ∀ c ∈ n.children ++ n.alternatives, c < f.size := by
    cases n with
    | ambiguity => cases hj
    | _ => simpa [Node.alternatives] using hn
  refine ((hf.push hbelow).yieldText_of_joins node_push_self hj).trans ?_
  refine congrArg (Except.ok ∘ String.join) (List.map_congr_left fun c hc => ?_)
  exact (grows_push f n).text hf (hn c hc)

theorem Acyclic.text_splice (hf : f.Acyclic) {child : NodeId} {items : List NodeId}
    (h : f.splice prod child = .ok items) : f.text child = String.join (items.map f.text) := by
  obtain ⟨n, hn, h⟩ := bind_eq_ok.1 h
  have kept : f.text child = String.join ([child].map f.text) := by simp
  split at h
  next p members =>
    have h := pure_eq_ok.1 h
    split at h
    · subst h
      rw [text, hf.yieldText_of_joins hn rfl]
      rfl
    · exact h ▸ kept
  next => exact pure_eq_ok.1 h ▸ kept

theorem texts_of_splice (hf : f.Acyclic) {itemss : List (List NodeId)}
    (h : cs.mapM (f.splice prod) = .ok itemss) :
    String.join (itemss.flatten.map f.text) = String.join (cs.map f.text) := by
  induction cs generalizing itemss with
  | nil =>
    cases h
    rfl
  | cons c cs ih =>
    rw [List.mapM_cons] at h
    obtain ⟨items, hitems, h⟩ := bind_eq_ok.1 h
    obtain ⟨rest, hrest, h⟩ := bind_eq_ok.1 h
    cases pure_eq_ok.1 h
    rw [List.flatten_cons, List.map_append, String.join_append, ih hrest, List.map_cons,
      String.join_cons, hf.text_splice hitems]

/-- The node covers the texts of the nodes `cs` of `f`, one after the other. -/
def Concatenates (f : Forest) (cs : List NodeId) (built : Forest × NodeId) : Prop :=
  ∃ texts, cs.mapM f.yieldText = .ok texts ∧ built.1.yieldText built.2 = .ok (String.join texts)

theorem concatenates_iff (hf : f.Acyclic) (hcs : ∀ c ∈ cs, c < f.size) {built : Forest × NodeId} :
    f.Concatenates cs built ↔
      built.1.yieldText built.2 = .ok (String.join (cs.map f.text)) := by
  rw [Concatenates, hf.mapM_yieldText hcs]
  simp

theorem Acyclic.concatenates_push {n : Node} (hf : f.Acyclic) (hj : n.joins = true)
    (hn : ∀ c ∈ n.children, c < f.size) : f.Concatenates n.children (f.push n) :=
  (concatenates_iff hf hn).2 (hf.text_push hj hn)

theorem exists_addList_concatenates (hf : f.Acyclic) (prod : ProdId) (hcs : ∀ c ∈ cs, c < f.size) :
    ∃ built, f.addList cs prod = .ok built ∧ f.Concatenates cs built := by
  obtain ⟨built, hbuilt⟩ := exists_addList prod hcs
  refine ⟨built, hbuilt, ?_⟩
  obtain ⟨itemss, hitems, h⟩ := bind_eq_ok.1 hbuilt
  cases pure_eq_ok.1 h
  rw [concatenates_iff hf hcs, ← texts_of_splice hf hitems]
  exact hf.text_push rfl (lt_of_splices hf hitems hcs)

theorem exists_addDerivation_concatenates (hf : f.Acyclic) {p : Production}
    (hp : f.grammar.get? prod = some p) (hcs : ∀ c ∈ cs, c < f.size)
    (hone : p.isOptional = true → cs.length ≤ 1) :
    ∃ built, f.addDerivation cs prod = .ok built ∧ f.Concatenates cs built := by
  cases h : f.addDerivation cs prod with
  | error e =>
    obtain ⟨-, hoptional, hseveral⟩ := (addDerivation_fails_iff hcs hp).1 ⟨e, h⟩
    exact absurd (hone hoptional) (Nat.not_le_of_lt hseveral)
  | ok built =>
    refine ⟨built, rfl, ?_⟩
    rcases addDerivation_cases h with hlist | ⟨n, hn, rfl, rfl⟩
    · obtain ⟨built', hbuilt', htext⟩ := exists_addList_concatenates hf prod hcs
      cases hlist.symm.trans hbuilt'
      exact htext
    · have hjoins : n.joins = true := by
        rcases hn with h | h <;> rw [h] <;> rfl
      exact hf.concatenates_push hjoins hcs

theorem distinct_congr {ids ids' : List NodeId} (h : ∀ id, id ∈ ids ↔ id ∈ ids') :
    distinct ids = distinct ids' :=
  (pairwise_distinct ids).eq_of_mem_iff (pairwise_distinct ids') fun id => by
    rw [mem_distinct, mem_distinct, h]

theorem addAmbiguity_congr (f : Forest) {alts alts' : List NodeId}
    (h : ∀ id, id ∈ alts ↔ id ∈ alts') : f.addAmbiguity alts = f.addAmbiguity alts' := by
  unfold addAmbiguity
  rw [distinct_congr h]

theorem head_distinct {ids rest : List NodeId} {first : NodeId}
    (hd : distinct ids = first :: rest) : first ∈ ids ∧ ∀ id ∈ ids, first ≤ id := by
  have hpairwise := pairwise_distinct ids
  rw [hd] at hpairwise
  refine ⟨mem_distinct.1 (hd ▸ List.mem_cons_self), fun id hid => ?_⟩
  rcases List.mem_cons.1 (hd ▸ mem_distinct.2 hid) with rfl | hid
  · exact Nat.le_refl id
  · exact Nat.le_of_lt ((List.pairwise_cons.1 hpairwise).1 id hid)

/-- What stands for the alternatives is the one node that they all are, or a new cluster of two or
more in increasing order. It covers the text of the smallest. -/
structure Clusters (f : Forest) (alts : List NodeId) (built : Forest × NodeId) : Prop where
  node : (∃ only, (∀ a ∈ alts, a = only) ∧ built = (f, only)) ∨
    ∃ ids, ids.Pairwise (· < ·) ∧ 2 ≤ ids.length ∧ (∀ id, id ∈ ids ↔ id ∈ alts) ∧
      built = f.push (.ambiguity ids)
  text : ∃ least ∈ alts, (∀ a ∈ alts, least ≤ a) ∧
    built.1.yieldText built.2 = f.yieldText least

theorem exists_addAmbiguity_clusters (hf : f.Acyclic) {alts : List NodeId} (hne : alts ≠ [])
    (halts : ∀ a ∈ alts, a < f.size) :
    ∃ built, f.addAmbiguity alts = .ok built ∧ f.Clusters alts built := by
  cases h : f.addAmbiguity alts with
  | error e => exact absurd (addAmbiguity_fails_iff.1 ⟨e, h⟩) hne
  | ok built =>
    refine ⟨built, rfl, ?_⟩
    have hmem (id : NodeId) : id ∈ distinct alts ↔ id ∈ alts := mem_distinct
    rcases addAmbiguity_cases h with ⟨only, hd, rfl⟩ | ⟨hlength, rfl⟩
    · obtain ⟨honly, hle⟩ := head_distinct hd
      rw [hd] at hmem
      refine ⟨.inl ⟨only, fun a ha => ?_, rfl⟩, only, honly, hle, rfl⟩
      exact List.mem_singleton.1 ((hmem a).2 ha)
    · refine ⟨.inr ⟨_, pairwise_distinct alts, hlength, hmem, rfl⟩, ?_⟩
      have hacyclic := hf.push (n := .ambiguity (distinct alts)) fun a ha => halts a ((hmem a).1 ha)
      obtain ⟨first, rest, hd⟩ := List.exists_cons_of_length_pos (Nat.zero_lt_of_lt hlength)
      obtain ⟨hfirst, hle⟩ := head_distinct hd
      have hself : (f.push (.ambiguity (distinct alts))).1.node f.size =
          .ok (.ambiguity (first :: rest)) := node_push_self.trans (by rw [hd])
      refine ⟨first, hfirst, hle, (hacyclic.yieldText_of_ambiguity hself).trans ?_⟩
      exact (grows_push f _).yieldText hf (halts first hfirst)

end Forest

namespace Site

open Forest

/-- In a forest that is built from nothing, each call passing only what was handed out before,
derivations, lists and partial lists of nodes that were handed out cover the texts of those nodes in
order, and a cluster covers the text of its smallest alternative, whatever the order and repetitions
in which the alternatives are passed. Every node covers a text, and no later call changes it. -/
theorem built_text (g : Grammar) (calls : List Construction) (hcalls : (new g).PermitsAll calls) :
    let s := (new g).after calls
    (∀ cs : List NodeId, (∀ c ∈ cs, c ∈ s.nodes) →
      (∀ prod ∈ s.productions, ∃ p, s.forest.grammar.get? prod = some p ∧
        ((p.isOptional = true → cs.length ≤ 1) →
          ∃ built, s.forest.addDerivation cs prod = .ok built ∧ s.forest.Concatenates cs built)) ∧
      (∀ prod, ∃ built,
        s.forest.addList cs prod = .ok built ∧ s.forest.Concatenates cs built) ∧
      (∀ prod, s.forest.Concatenates cs (s.forest.addPartialList cs prod)) ∧
      (cs ≠ [] → ∃ built,
        s.forest.addAmbiguity cs = .ok built ∧ s.forest.Clusters cs built ∧
        ∀ alts : List NodeId, (∀ id, id ∈ alts ↔ id ∈ cs) →
          s.forest.addAmbiguity alts = .ok built)) ∧
    ∀ id < s.forest.size, ∃ text, s.forest.yieldText id = .ok text ∧
      ∀ later, (s.after later).forest.yieldText id = .ok text := by
  intro s
  have hs : s.Sound := (sound_new g).after hcalls
  have hf : s.forest.Acyclic := hs.wellBuilt.acyclic
  refine ⟨fun cs hcs => ?_, fun id hid => ?_⟩
  · have hlt : ∀ c ∈ cs, c < s.forest.size := fun c hc => hs.nodes c (hcs c hc)
    refine ⟨fun prod hprod => ?_, fun prod => exists_addList_concatenates hf prod hlt,
      fun prod => hf.concatenates_push (n := .list prod cs true) rfl hlt, fun hne => ?_⟩
    · have hp := List.getElem?_eq_getElem (hs.productions prod hprod)
      exact ⟨_, hp, exists_addDerivation_concatenates hf hp hlt⟩
    · obtain ⟨built, hbuilt, hclusters⟩ := exists_addAmbiguity_clusters hf hne hlt
      exact ⟨built, hbuilt, hclusters, fun alts halts =>
        (addAmbiguity_congr s.forest halts).trans hbuilt⟩
  · obtain ⟨text, htext⟩ := hf.exists_yieldText hid
    exact ⟨text, htext, fun later => ((grows_after s later).yieldText hf hid).trans htext⟩

def wordCalls : List Construction :=
  let word : Production := ⟨.named .lexical "Word", none, [], false⟩
  let words : Production := ⟨.repeated .star (.named .lexical "Word"), none, [], false⟩
  let optional : Production := ⟨.optional (.named .lexical "Word"), none, [], false⟩
  [.production word, .production words, .production optional, .char 97, .char 98,
    .derivation [0] 0, .derivation [1] 0, .partialList [2, 3] 1, .derivation [3] 2]

theorem built_text_words :
    let s := (new (.empty "Words")).after wordCalls
    (new (.empty "Words")).PermitsAll wordCalls ∧
      (∃ built, s.forest.addList [4, 2] 1 = .ok built ∧ s.forest.Concatenates [4, 2] built ∧
        built.1.node built.2 = .ok (.list 1 [2, 3, 2] false)) ∧
      (∃ built, s.forest.addDerivation [5] 2 = .ok built ∧ s.forest.Concatenates [5] built) ∧
      (∃ built, s.forest.addAmbiguity [5, 3, 5] = .ok built ∧ s.forest.Clusters [5, 3, 5] built ∧
        s.forest.addAmbiguity [3, 5] = .ok built) ∧
      ∀ later, (s.after later).forest.yieldText 4 = .ok "ab" := by
  intro s
  have hcalls : (new (.empty "Words")).PermitsAll wordCalls := by decide +kernel
  obtain ⟨builds, keeps⟩ := built_text (.empty "Words") wordCalls hcalls
  obtain ⟨-, hlist, -, -⟩ := builds [4, 2] (by decide +kernel)
  obtain ⟨hderivation, -, -, -⟩ := builds [5] (by decide +kernel)
  obtain ⟨-, -, -, hcluster⟩ := builds [5, 3, 5] (by decide +kernel)
  refine ⟨hcalls, ?_, ?_, ?_, ?_⟩
  · obtain ⟨built, hbuilt, htext⟩ := hlist 1
    refine ⟨built, hbuilt, htext, ?_⟩
    cases hbuilt
    rfl
  · obtain ⟨p, hp, hbuilds⟩ := hderivation 2 (by decide +kernel)
    exact hbuilds fun _ => Nat.le_refl 1
  · obtain ⟨built, hbuilt, hclusters, hcongr⟩ := hcluster (by decide)
    exact ⟨built, hbuilt, hclusters, hcongr [3, 5] (by simp [or_comm])⟩
  · obtain ⟨text, htext, hlater⟩ := keeps 4 (by decide +kernel)
    have hab : s.forest.yieldText 4 = .ok "ab" := by rfl
    cases hab.symm.trans htext
    exact hlater

end Site

end ParseForest
