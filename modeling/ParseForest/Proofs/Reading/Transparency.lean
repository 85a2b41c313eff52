import ParseForest.Proofs.Fragment.Quotation
import ParseForest.Proofs.Reading.Simulation
import ParseForest.Proofs.Session.History

/-!
Kept results do not show. If no quoted pattern has another fragment in it outside of its
anti-quotes, a fragment and an image are never kept for one node, so every kept result is the one
that reading without a session gives, whatever was read before.
-/

namespace ParseForest

open Build Success

namespace Builder

variable {b : Builder} {n : Nat}

/-- What is kept for a node is what reading it without a session gives. -/
def Right (b : Builder) : Memory → NodeId → Option Tree → Prop
  | .clusters, node, v => Plain.cluster b b.plain node = .ok v
  | .derivations, node, v => Plain.derivation b b.plain node = .ok v
  | .tokens, node, v => Plain.token b node = .ok v
  | .fragments, node, v =>
    b.Embeds node ∧ Plain.fragment b b.plain node = .ok v ∨
      b.Quoted node ∧ Plain.image b b.plain node = .ok v

/-- In a table of right results, reading below `n` computes the reading without a session; images
are taken of quoted nodes only. -/
structure Faithful (b : Builder) (n : Nat) (x : Descent) : Prop where
  simulates : Simulates (AllKept b.Right) n x b.plain
  image : ∀ c < n, b.Quoted c → Computes (AllKept b.Right) (x.image c) (b.plain.image c)

theorem computes_token : Computes (AllKept b.Right) (b.token n) (Plain.token b n) := by
  refine computes_once_of_iff (fun _ => Iff.rfl) ?_
  refine computes_bind (computes_lift _) fun _ _ => ?_
  refine computes_bind (computes_liftChecked _) fun _ _ => ?_
  refine computes_bind (computes_liftChecked _) fun _ _ => ?_
  exact computes_map _ (computes_lift _)

theorem computes_constructorOf {J : Results → Prop} :
    Computes J (b.constructorOf n) (Plain.constructorOf b n) := by
  refine computes_bind (computes_liftChecked _) fun name? _ => ?_
  cases name? with
  | none => exact computes_bind (computes_liftChecked _) fun _ _ => computes_throw _
  | some name => exact computes_pure _

namespace Faithful

variable {x : Descent} (h : b.Faithful n x) (hf : b.forest.Acyclic)
include h hf

theorem derivation :
    Computes (AllKept b.Right) (b.derivation x n) (Plain.derivation b b.plain n) := by
  refine computes_once_of_iff (fun _ => Iff.rfl) ?_
  refine computes_bind computes_constructorOf fun _ _ => ?_
  refine computes_bind (computes_lift _) fun _ _ => ?_
  refine computes_bind (computes_liftChecked _) fun cs hcs => ?_
  have hc : ∀ c ∈ cs, c < n := fun c hc => hf.lt_of_arguments (mapError_eq_ok.1 hcs) hc
  refine computes_bind (h.simulates.applyTo hf hc _ _) fun args? _ => ?_
  cases args? with
  | none => exact computes_record_bind _ (computes_pure _)
  | some args =>
    refine computes_bind (computes_liftChecked _) fun _ _ => ?_
    refine computes_bind (computes_lift _) fun _ _ => ?_
    exact computes_bind (computes_modify fun _ => rfl) fun _ _ => computes_pure _

theorem cluster : Computes (AllKept b.Right) (b.cluster x n) (Plain.cluster b b.plain n) := by
  refine computes_once_of_iff (fun _ => Iff.rfl) ?_
  refine computes_bind (computes_liftChecked _) fun alts halts => ?_
  have ha : ∀ a ∈ alts, a < n := fun a ha => hf.lt_of_alternatives (mapError_eq_ok.1 halts) ha
  refine computes_bind (h.simulates.offerValues ha _ _) fun found _ => computes_record_bind _ ?_
  obtain ⟨survivors, ambiguity⟩ := found
  dsimp only
  match survivors.items, ambiguity with
  | [], some _ => exact computes_throw _
  | [], none => exact computes_pure _
  | [_], _ => exact computes_pure _
  | _ :: _ :: _, _ =>
    refine computes_bind (computes_lift _) fun _ _ => ?_
    refine computes_bind (computes_liftChecked _) fun _ _ => ?_
    exact computes_map _ (computes_lift _)

variable (hq : b.QuotesApart)
include hq

theorem fragment (he : b.Embeds n) :
    Computes (AllKept b.Right) (b.fragment x n) (Plain.fragment b b.plain n) := by
  refine computes_fragment (fun v => ?_) fun p hp => ?_
  · constructor
    · rintro (⟨_, hv⟩ | ⟨hquoted, _⟩)
      · exact hv
      · exact absurd he (hq n hquoted)
    · exact fun hv => .inl ⟨he, hv⟩
  · exact h.image p (hf.lt_of_pattern hp) (Quotes.quoted ⟨he, hp⟩)

theorem imageStep (hn : b.Quoted n) :
    Computes (AllKept b.Right) (b.image x n) (Plain.image b b.plain n) := by
  refine computes_image (fun v => ?_) (fun c hc => ?_) fun _ _ => h.simulates.hole hf
  · constructor
    · rintro (⟨he, _⟩ | ⟨_, hv⟩)
      · exact absurd he (hq n hn)
      · exact hv
    · exact fun hv => .inr ⟨hn, hv⟩
  · exact h.image c (mirrored_lt hf hc) (hn.mirrored hc)

theorem readStep : Computes (AllKept b.Right) (b.read x n) (Plain.read b b.plain n) := by
  refine computes_bind (computes_liftChecked _) fun _ _ => computes_record_bind _ ?_
  refine computes_bind (computes_liftChecked _) fun node hnode => ?_
  have hnode := mapError_eq_ok.1 hnode
  cases node with
  | ambiguity alts => exact h.cluster hf
  | derivation prod cs =>
    refine computes_bind (computes_liftChecked _) fun isLexical hl => ?_
    cases isLexical with
    | true => exact computes_token
    | false =>
      refine computes_bind (computes_liftChecked _) fun isEmbedding he => ?_
      cases isEmbedding with
      | true =>
        have he := embeds_of_node hnode (mapError_eq_ok.1 hl) (mapError_eq_ok.1 he)
        exact h.fragment hf hq he
      | false => exact h.derivation hf
  | cycle depth prod => exact computes_record_bind _ (computes_pure _)
  | recovery text => exact computes_record_bind _ (computes_pure _)
  | list prod cs isPartial => exact computes_throw _
  | literal text prod => exact computes_throw _
  | char code => exact computes_throw _
  | optional prod child => exact computes_throw _

end Faithful

theorem Faithful.of_le {x : Descent} {m : Nat} (h : b.Faithful n x) (hm : m ≤ n) :
    b.Faithful m x where
  simulates := {
    value := fun c hc => h.simulates.value c (Nat.lt_of_lt_of_le hc hm)
    run := fun c hc => h.simulates.run c (Nat.lt_of_lt_of_le hc hm)
    choice := fun c hc => h.simulates.choice c (Nat.lt_of_lt_of_le hc hm) }
  image := fun c hc => h.image c (Nat.lt_of_lt_of_le hc hm)

theorem faithful_descend (hf : b.forest.Acyclic) (hq : b.QuotesApart) (hn : n < b.forest.size)
    {x : Descent} (h : b.Faithful n x) : b.Faithful (n + 1) (b.descend x) := by
  constructor
  · constructor
    · intro c hc
      rw [(plain_eq hf (by omega)).1]
      exact (h.of_le (by omega)).readStep hf hq
    · intro c hc
      rw [(plain_eq hf (by omega)).2.1]
      exact (h.of_le (by omega)).simulates.runs hf
    · intro c hc
      rw [(plain_eq hf (by omega)).2.2.1]
      exact (h.of_le (by omega)).simulates.choices hf
  · intro c hc hquoted
    rw [(plain_eq hf (by omega)).2.2.2]
    exact (h.of_le (by omega)).imageStep hf hq hquoted

theorem faithful_inSession {choose : Session → Descent} (h : ∀ s, b.Faithful n (choose s)) :
    b.Faithful n (.inSession choose) where
  simulates := {
    value := fun c hc s hs => (h s).simulates.value c hc s hs
    run := fun c hc s hs => (h s).simulates.run c hc s hs
    choice := fun c hc s hs => (h s).simulates.choice c hc s hs }
  image := fun c hc hq s hs => (h s).image c hc hq s hs

theorem faithful_descent (hf : b.forest.Acyclic) (hq : b.QuotesApart) (hn : n ≤ b.forest.size)
    {depth fresh kept : Nat} (hd : n ≤ depth) (hr : n ≤ fresh) :
    b.Faithful n (b.descent depth fresh kept) :=
  descent_induction (fun _ => ⟨⟨nofun, nofun, nofun⟩, nofun⟩) (fun _ _ => faithful_inSession)
    (fun _ _ hm => faithful_descend hf hq hm) hn hd hr

theorem computes_read_missing {J : Results → Prop} (hn : b.forest.size ≤ n) (x : Descent)
    (y : Plain.Descent) : Computes J (b.read x n) (Plain.read b y n) := by
  refine computes_bind (computes_liftChecked _) fun name hname => ?_
  obtain ⟨node, hnode, _⟩ := bind_eq_ok.1 (mapError_eq_ok.1 hname)
  obtain ⟨hlt, _⟩ := Forest.node_eq_ok.1 hnode
  exact absurd hlt (Nat.not_lt.2 hn)

theorem plain_missing (hn : b.forest.size ≤ n) (y z : Plain.Descent) :
    Plain.read b y n = Plain.read b z n := by
  have hy := computes_read_missing (J := fun _ => True) hn .ended y
  have hz := computes_read_missing (J := fun _ => True) hn .ended z
  exact (hy .initial trivial).1.symm.trans (hz .initial trivial).1

theorem computes_value (hf : b.forest.Acyclic) (hq : b.QuotesApart) (n : Nat) :
    Computes (AllKept b.Right) (b.value n) (b.plain.value n) := by
  have hl : b.forest.size + 1 ≤ b.levelLimit := by
    unfold levelLimit
    omega
  have hd : b.levelLimit ≤ b.levelLimit * b.levelLimit := Nat.le_mul_self _
  by_cases hn : n < b.forest.size
  · have h : b.Faithful (n + 1) (b.descent (b.levelLimit * b.levelLimit) b.levelLimit 0) :=
      faithful_descent hf hq hn (by omega) (by omega)
    exact h.simulates.value n (Nat.lt_succ_self n)
  · exact computes_value_of_read fun x => computes_read_missing (Nat.not_lt.1 hn) x _

/-- The value of a node is what reading without a session gives, after every history of calls. Any
number of levels past the number of the node is enough for that reading. -/
theorem value_eq_plain (hf : b.forest.Acyclic) (hq : b.QuotesApart) (calls : List Call)
    {n depth : Nat} (hd : n < depth) :
    (b.value n).outcome (b.sessionAfter calls) = (Plain.descent b depth).value n := by
  have hs := holds_sessionAfter (fun m => (computes_value hf hq m).keeps) allKept_empty calls
  rw [(computes_value hf hq n _ hs).1]
  by_cases hn : n < b.forest.size
  · exact (Plain.descent_agree hf (n + 1) (Nat.succ_le_succ (Nat.le_of_lt hn)) hd).value n
      (Nat.lt_succ_self n)
  · obtain ⟨depth, rfl⟩ := Nat.exists_eq_add_of_le' (Nat.zero_lt_of_lt hd)
    exact plain_missing (Nat.not_lt.1 hn) _ _

/-- A pair of a variable and a quoted pair of that variable and an anti-quote that holds it. -/
def quotedPair : Builder where
  forest := {
    grammar := ⟨"Quoted", [⟨.named .lexical "Id", none, [], true⟩,
      ⟨.named .sort "Expression", some "var", [.named .lexical "Id"], false⟩,
      ⟨.named .sort "Expression", some "MetaVariable", [.named .sort "Expression"], false⟩,
      ⟨.named .sort "Expression", some "pair",
        [.named .sort "Expression", .named .sort "Expression"], false⟩,
      ⟨.named .sort "Expression", some "ConcreteQuoted", [.named .sort "Expression"], false⟩],
      by decide⟩
    entries := #[⟨.char 120, none⟩, ⟨.derivation 0 [0], none⟩, ⟨.derivation 1 [1], none⟩,
      ⟨.derivation 2 [2], none⟩, ⟨.derivation 3 [2, 3], none⟩, ⟨.derivation 4 [4], none⟩,
      ⟨.derivation 3 [2, 5], none⟩]
    source := "<input>"
    lines := none }
  registry := (Registry.empty.define ⟨"Id", true, []⟩).define
    ⟨"Expression", false, [("Var", [.node]), ("Pair", [.node, .node])]⟩
  conventions := .standard

theorem value_quotedPair_eq_plain :
    quotedPair.forest.Acyclic ∧ quotedPair.QuotesApart ∧
      (quotedPair.value 6).outcome
        (quotedPair.sessionAfter [.value 3, .convertModule 0, .convert "Expression" 5]) =
      (Plain.descent quotedPair 7).value 6 := by
  have hf : quotedPair.forest.Acyclic := by decide +kernel
  have hq : quotedPair.QuotesApart :=
    quotesApart_of_closed hf [4, 2, 3, 1] (by decide +kernel) (by decide +kernel)
      (by decide +kernel)
  exact ⟨hf, hq, value_eq_plain hf hq _ (by decide)⟩

end Builder

end ParseForest
