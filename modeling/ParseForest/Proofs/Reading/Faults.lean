import ParseForest.Proofs.Reading.Grouping
import ParseForest.Proofs.Reading.Modules
import ParseForest.Proofs.Reading.Sustained

/-!
Nodes that cannot be read as values, since the grammar has nothing to build them with. Nothing is
ever kept for such a node, so whatever was called before, it fails in the same way each time it is
met, and with it what it is a part of. Main statements: `value_of_faulty`,
`outcome_gather_of_faulty`, `outcome_value_of_faulty`.
-/

namespace ParseForest

open Build Success Checked

namespace Builder

/-- The node has no value because of the defect, whatever else is read. -/
inductive Faulty (b : Builder) : NodeId → Defect → Prop
  | literal {n : NodeId} {text : String} {prod : ProdId}
    (node : b.forest.node n = .ok (.literal text prod)) :
    Faulty b n (.notValue n (.literal text prod))
  | unnamed {n : NodeId} {prod : ProdId} {cs : List NodeId} {p : Production}
    (node : b.forest.node n = .ok (.derivation prod cs))
    (production : b.forest.grammar.production prod = .ok p) (contextFree : p.isLexical = false)
    (unnamed : p.constructor = none) : Faulty b n (.unnamedProduction n (some p))
  | unsorted {n : NodeId} {prod : ProdId} {cs : List NodeId} {p : Production}
    (node : b.forest.node n = .ok (.derivation prod cs))
    (production : b.forest.grammar.production prod = .ok p)
    (apart : b.isEmbedding n = .ok false)
    (named : p.isLexical = false → p.constructor.isSome = true) (unsorted : p.sortName = "") :
    Faulty b n (.unnamedSort n)
  | first {n first : NodeId} {rest : List NodeId} {d : Defect}
    (node : b.forest.node n = .ok (.ambiguity (first :: rest))) (h : Faulty b first d) :
    Faulty b n d

def Fails {α : Type} (d : Defect) (r : Except Error α) : Prop :=
  r = .error (.defect d) ∨ r = .error (.breach .endlessDerivation)

/-- The node is a context-free derivation and no fragment, of a production with all the names that
building it takes. -/
structure Applies (b : Builder) (id : NodeId) (cs : List NodeId) : Prop where
  exists_production : ∃ prod p, b.forest.node id = .ok (.derivation prod cs) ∧
    b.forest.grammar.production prod = .ok p ∧ p.isLexical = false ∧
    p.constructor.isSome = true ∧ p.sortName ≠ ""
  apart : b.isEmbedding id = .ok false

abbrev Unkept (b : Builder) : Results → Prop :=
  AllKept fun memory n _ => memory = .fragments ∨ ∀ d, ¬ b.Faulty n d

variable {b : Builder} {n : NodeId} {d : Defect} {x : Descent} {s : Session}

section Steps

variable {α β : Type} {J : Results → Prop}

theorem not_fails_ok {a : α} : ¬ Fails d (.ok a : Except Error α) := by
  intro h
  rcases h with h | h <;> cases h

theorem Fails.error {e : Error} (h : Fails d (.error e : Except Error α)) :
    Fails d (.error e : Except Error β) := by
  rcases h with h | h
  · exact .inl (congrArg _ (Except.error.inj h))
  · exact .inr (congrArg _ (Except.error.inj h))

theorem fails_defect : Yields J (defect d : Build α) (Fails d) :=
  (computes_throw _).mono fun _ h => .inl h

theorem fails_bind {y : Build α} {f : α → Build β} (hy : Yields J y (Fails d)) :
    Yields J (y >>= f) (Fails d) :=
  yields_bind hy (fun _ h => absurd h not_fails_ok) fun _ h => h.error

theorem fails_attempt {y : Build α} (hy : Yields J y (Fails d)) :
    Yields J (attempt y) (Fails d) := by
  intro s hs
  obtain ⟨hr, hj⟩ := hy s hs
  rw [outcome_attempt, after_attempt]
  rcases hr with hr | hr
  · rw [hr]
    exact ⟨.inl rfl, hj⟩
  · rw [hr]
    exact ⟨.inr rfl, hj⟩

theorem fails_once {memory : Memory} {y : Build (Option Tree)} (hn : b.Faulty n d)
    (hm : memory ≠ .fragments) (hy : Yields b.Unkept y (Fails d)) :
    Yields b.Unkept (once memory n y) (Fails d) := by
  intro s hs
  have hnew : s.kept? memory n = none := by
    cases hk : s.kept? memory n with
    | none => rfl
    | some v =>
      rcases hs memory n v hk with hf | hf
      · exact absurd hf hm
      · exact absurd hn (hf d)
  obtain ⟨hr, hj⟩ := hy s hs
  simp only [outcome, after] at hr hj
  simp only [outcome, after, once_of_new hnew]
  cases h : y s with
  | ok v s' =>
    rw [h] at hr
    exact absurd hr not_fails_ok
  | error e s' =>
    rw [h] at hr hj
    exact ⟨hr, hj⟩

end Steps

theorem Faulty.lt (h : b.Faulty n d) : n < b.forest.size := by
  cases h with
  | literal node => exact (Forest.node_eq_ok.1 node).choose
  | unnamed node => exact (Forest.node_eq_ok.1 node).choose
  | unsorted node => exact (Forest.node_eq_ok.1 node).choose
  | first node => exact (Forest.node_eq_ok.1 node).choose

theorem Faulty.slot (h : b.Faulty n d) : b.forest.slot n = .ok .single := by
  cases h with
  | literal node | unnamed node | unsorted node =>
    rw [Forest.slot, bind_of_ok node]
    rfl
  | @first _ first rest _ node h =>
    have hlist : b.forest.isList first = .ok false := by
      cases h with
      | literal node | unnamed node | unsorted node | first node =>
        exact map_eq_ok.2 ⟨_, node, rfl⟩
    rw [Forest.slot, bind_of_ok node]
    dsimp only
    rw [hlist]
    rfl

theorem sortKey_of_unsorted {prod : ProdId} {cs : List NodeId} {p : Production}
    (hn : b.forest.node n = .ok (.derivation prod cs))
    (hp : b.forest.grammar.production prod = .ok p) (h : p.sortName = "") :
    b.sortKey n = .error (.defect (.unnamedSort n)) := by
  rw [sortKey, sortName_of_production hn hp, h]
  rfl

section WellBuilt

variable (hf : b.forest.WellBuilt)
include hf

theorem fails_read (below : ∀ m d, b.Faulty m d → Yields b.Unkept (x.value m) (Fails d))
    (h : b.Faulty n d) : Yields b.Unkept (b.read x n) (Fails d) := by
  have entered {sort : String} {y : Build (Option Tree)} (hy : Yields b.Unkept y (Fails d)) :
      Yields b.Unkept (record (.enter n sort) >>= fun _ => y) (Fails d) :=
    yields_bind (computes_record _) (fun _ _ => hy) fun _ he => nomatch he
  obtain ⟨sort, hsort⟩ := hf.sortName h.lt
  have hn := h
  cases h with
  | literal node =>
    rw [read, checked_bind_of_ok hsort]
    refine entered ?_
    rw [checked_bind_of_ok node]
    exact fails_defect
  | unnamed node production contextFree unnamed =>
    rw [read_of_derivation node production contextFree
      (isEmbedding_of_unnamed node production unnamed)]
    refine entered (fails_once hn (by decide) (fails_bind ?_))
    rw [constructorOf_of_unnamed node production unnamed]
    exact fails_defect
  | @unsorted _ _ _ p node production apart named unsorted =>
    have hkey : Yields b.Unkept (liftM (b.sortKey n) : Build String) (Fails (.unnamedSort n)) := by
      rw [sortKey_of_unsorted node production unsorted]
      exact fails_defect
    cases hl : p.isLexical with
    | true =>
      have hlexical : b.forest.isLexical n = .ok true :=
        hl ▸ isLexical_of_derivation node production
      rw [read, checked_bind_of_ok hsort]
      refine entered ?_
      rw [checked_bind_of_ok node]
      dsimp only
      rw [checked_bind_of_ok hlexical]
      exact fails_once hn (by decide) (fails_bind hkey)
    | false =>
      obtain ⟨name, hname⟩ := Option.isSome_iff_exists.1 (named hl)
      have hnamed : b.forest.constructor? n = .ok (some name) :=
        hname ▸ constructor?_of_derivation node production
      have hconstructor : b.constructorOf n = pure (Conventions.constructorKey name) :=
        checked_bind_of_ok hnamed _
      rw [read_of_derivation node production hl apart]
      refine entered (fails_once hn (by decide) ?_)
      rw [hconstructor, pure_bind]
      exact fails_bind hkey
  | @first _ first rest _ node h =>
    have halts : b.forest.alternatives n = .ok (first :: rest) := map_eq_ok.2 ⟨_, node, rfl⟩
    rw [read, checked_bind_of_ok hsort]
    refine entered ?_
    rw [checked_bind_of_ok node]
    refine fails_once hn (by decide) ?_
    rw [checked_bind_of_ok halts]
    exact fails_bind (fails_bind (fails_attempt (below first _ h)))

omit hf in
theorem storesAt_of_not_faulty (h : ∀ d, ¬ b.Faulty n d) (memory : Memory) :
    StoresAt b.Unkept (fun _ => True) memory n :=
  ⟨fun _ _ _ _ _ _ => trivial, fun _ _ _ _ _ ht' _ => ht'.insert (.inr h)⟩

omit hf in
theorem storesAt_fragments (n : NodeId) :
    StoresAt b.Unkept (fun _ => True) .fragments n :=
  ⟨fun _ _ _ _ _ _ => trivial, fun _ _ _ _ _ ht' _ => ht'.insert (.inl rfl)⟩

/-- Readings of faulty nodes fail, and no reading keeps anything for one. -/
structure Failing (b : Builder) (x : Descent) : Prop where
  fails : ∀ n d, b.Faulty n d → Yields b.Unkept (x.value n) (Fails d)
  sustained : Sustained b.Unkept (fun _ => True) x

theorem failing_descend (h : b.Failing x) : b.Failing (b.descend x) where
  fails n d hn := fails_read hf h.fails hn
  sustained := by
    constructor
    · intro n
      by_cases hn : ∃ d, b.Faulty n d
      · obtain ⟨d, hn⟩ := hn
        exact (fails_read hf h.fails hn).mono fun _ _ _ _ _ _ => trivial
      · exact h.sustained.read sustains_any n (storesAt_of_not_faulty (not_exists.1 hn))
    · exact h.sustained.readRun
    · exact h.sustained.readChoice
    · exact fun n => h.sustained.readImage sustains_any n (storesAt_fragments n)

theorem failing_reading : b.Failing b.reading := by
  refine descent_rule ⟨?_, sustained_ended⟩ (fun choose h => ⟨?_, ?_⟩)
    (fun _ h => failing_descend hf h) _ _ _
  · exact fun n d _ => (computes_throw _).mono fun _ h => .inr h
  · exact fun n d hn s hs => (h s).fails n d hn s hs
  · exact sustained_inSession fun s => (h s).sustained

theorem unkept_sessionAfter (calls : List Call) : b.Unkept (b.sessionAfter calls).results :=
  holds_sessionAfter (fun n => ((failing_reading hf).sustained.value n).keeps) allKept_empty calls

theorem value_of_faulty (h : b.Faulty n d) (hs : b.Unkept s.results) :
    (b.value n).outcome s = .error (.defect d) := by
  have hends : (b.value n).Ends s := ends_of_unbroken (unbroken_value hf h.lt) s
  exact (((failing_reading hf).fails n d h s hs).1).resolve_right hends

theorem readsAs_of_faulty (h : b.Faulty n d) (hs : b.Unkept s.results) :
    b.ReadsAs n s (.error (.defect d)) :=
  readsAs_of_error h.slot (value_of_faulty hf h hs)

theorem unkept_after_gather (ns : List NodeId) (hs : b.Unkept s.results) :
    b.Unkept ((b.gather ns).after s).results := by
  have hpart : ∀ n, Gives b.Unkept (b.part b.reading n) fun v => ∀ ts ∈ v, ∀ t ∈ ts, True :=
    (failing_reading hf).sustained.part
  exact (keeps_bind (gives_collect hpart).keeps (fun _ => (computes_pure _).keeps) s hs).2

theorem outcome_gather_of_faulty (h : b.Faulty n d) (hs : b.Unkept s.results)
    (ns ms : List NodeId) :
    (b.gather (ns ++ n :: ms)).outcome s = match (b.gather ns).outcome s with
      | .ok (some _) => .error (.defect d)
      | r => r := by
  rw [gather_append, gather_cons, joined, outcome_bind]
  cases (b.gather ns).outcome s with
  | error e => rfl
  | ok ts? =>
    cases ts? with
    | none => rfl
    | some ts =>
      have hafter := unkept_after_gather hf ns hs
      dsimp only
      rw [joined, bind_assoc, outcome_bind, (readsAs_of_faulty hf h hafter).part]

theorem outcome_applyTo_of_faulty (h : b.Faulty n d) (hs : b.Unkept s.results)
    (ns ms : List NodeId) (args : List (Arg Tree)) (total : Cost) :
    (b.applyTo b.reading args total (ns ++ n :: ms)).outcome s =
      match (b.applyTo b.reading args total ns).outcome s with
      | .ok (some _) => .error (.defect d)
      | r => r := by
  induction ns generalizing args total s with
  | nil =>
    conv_lhs => rw [List.nil_append, applyTo, outcome_bind, (readsAs_of_faulty hf h hs).argument]
    rfl
  | cons m ns ih =>
    have hafter : b.Unkept ((b.argument b.reading m).after s).results :=
      ((failing_reading hf).sustained.argument m s hs).2
    rw [List.cons_append, applyTo, applyTo, outcome_bind, outcome_bind]
    cases (b.argument b.reading m).outcome s with
    | error e => rfl
    | ok arg? =>
      cases arg? with
      | none => rfl
      | some arg =>
        -- A cost out of range ends both before the faulty argument is read.
        dsimp only
        cases arg.cost with
        | error breach => rfl
        | ok cost =>
          rw [checked_bind_of_ok rfl, checked_bind_of_ok rfl]
          cases total.add cost with
          | error breach => rfl
          | ok total' => exact ih hafter _ _

theorem outcome_value_of_derivation {id : NodeId} {prod : ProdId} {p : Production}
    {cs : List NodeId} (hn : b.forest.node id = .ok (.derivation prod cs))
    (hp : b.forest.grammar.production prod = .ok p) (hlexical : p.isLexical = false)
    (hapart : b.isEmbedding id = .ok false) (s : Session) :
    (b.value id).outcome s = (b.derivation b.reading id).outcome s := by
  let entered : Session := { s with events := s.events.push (.enter id p.sortName) }
  have hends := ends_of_unbroken (unbroken_value hf (Forest.node_eq_ok.1 hn).choose) s
  have hread : (b.read b.reading id).outcome s = (b.derivation b.reading id).outcome entered := by
    rw [read_of_derivation hn hp hlexical hapart]
    rfl
  obtain ⟨hvalue, -, -⟩ := reading_unfolds.value id s s trivial rfl hends
  have hsame : (b.derivation b.reading id).outcome entered = (b.value id).outcome s :=
    hread.symm.trans hvalue
  have hends : (b.derivation b.reading id).Ends entered := by
    rw [Ends, hsame]
    exact hends
  have hself : Extends (fun _ => True) (b.derivation b.reading id) (b.derivation b.reading id) :=
    extends_derivation extends_reading_self (fun _ _ _ _ => trivial) id
  exact hsame.symm.trans (hself entered s trivial rfl hends).1.symm

theorem outcome_value_of_faulty {id : NodeId} {cs ns ms : List NodeId}
    (h : b.Faulty n d) (hs : b.Unkept s.results) (hid : b.Applies id cs)
    (hargs : Checked.filter b.isArgument cs = .ok (ns ++ n :: ms))
    (hnew : s.kept? .derivations id = none) :
    (b.value id).outcome s = match (b.applyTo b.reading [] .zero ns).outcome s with
      | .ok (some _) => .error (.defect d)
      | .ok none => .ok none
      | .error e => .error e := by
  obtain ⟨⟨prod, p, hn, hp, hlexical, hnamed, hsorted⟩, hapart⟩ := hid
  obtain ⟨name, hname⟩ := Option.isSome_iff_exists.1 hnamed
  have hconstructor : b.constructorOf id = pure (Conventions.constructorKey name) :=
    checked_bind_of_ok (hname ▸ constructor?_of_derivation hn hp) _
  have hsort : b.sortKey id = .ok (b.conventions.sortKey p.sortName) := by
    rw [sortKey, sortName_of_production hn hp]
    split
    · contradiction
    · next h => exact absurd (Except.ok.inj h) hsorted
    · next h => rw [Except.ok.inj h]
  have harguments : b.arguments id = .ok (ns ++ n :: ms) := by
    rw [arguments, bind_of_ok (Forest.children_eq_ok.2 ⟨_, hn, rfl⟩)]
    exact hargs
  rw [outcome_value_of_derivation hf hn hp hlexical hapart, derivation, outcome_once, hnew,
    hconstructor, pure_bind, hsort]
  dsimp only
  rw [outcome_bind, outcome_lift, after_lift]
  dsimp only
  rw [checked_bind_of_ok harguments, outcome_bind, outcome_applyTo_of_faulty hf h hs ns ms [] .zero]
  cases (b.applyTo b.reading [] .zero ns).outcome s with
  | error e => rfl
  | ok built? => cases built? <;> rfl

end WellBuilt

end Builder

end ParseForest
