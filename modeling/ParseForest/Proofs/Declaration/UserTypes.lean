import ParseForest.Proofs.Declaration.Readers

/-!
Types that are names, as the two readers take them: one finds the symbol that a hole is for, one the
type that a declaration refers to. They see the same user types over the same arguments, but only
the reader of declarations takes the backslash off an escaped name, so that they give equal names
just where no name is escaped. Main statements: `namedBy_ofTree`, `readers_of_user_types`.
-/

namespace ParseForest

open Success ParseForest.Tree

namespace Text

/-- A backslash keeps the text from being a keyword. -/
def Escaped (s : String) : Prop := ['\\'] <+: s.toList

instance : DecidablePred Escaped := fun s => inferInstanceAs (Decidable (_ <+: s.toList))

theorem withoutLeading_eq_self_iff {s : String} : withoutLeading "\\" s = s ↔ ¬ Escaped s := by
  unfold withoutLeading
  split
  · next rest hrest =>
    have happend : '\\' :: rest = s.toList := List.isPrefixOf?_eq_some_iff_append_eq.1 hrest
    have hne : String.ofList rest ≠ s := by
      rintro rfl
      simp at happend
    exact iff_of_false hne (not_not_intro ⟨rest, happend⟩)
  · next hnone =>
    refine iff_of_true rfl fun ⟨rest, happend⟩ => ?_
    cases hnone.symm.trans (List.isPrefixOf?_eq_some_iff_append_eq.2 happend)

end Text

mutual
/-- The type is made of user types, whose arguments are so in turn, and of symbols. -/
def TypeExpr.Nominal : TypeExpr → Prop
  | .user ⟨_, parameters, _⟩ => TypeExpr.AllNominal parameters
  | .symbol _ => True
  | .builtin _ | .structured .. | .typeVar .. => False
termination_by structural e => e

def TypeExpr.AllNominal : List TypeExpr → Prop
  | [] => True
  | e :: es => e.Nominal ∧ TypeExpr.AllNominal es
termination_by structural es => es
end

namespace Symbol

mutual
/-- The symbol and the type are the same user types over the same arguments, and the names at each
place are related. -/
inductive Names (related : String → String → Prop) : Symbol → TypeExpr → Prop
  | sort {n : String} {q : QualifiedName} {span : Option Span} (h : related n q.name) :
    Names related (.named .sort n) (.user ⟨q, [], span⟩)
  | applied {n : String} {q : QualifiedName} {span : Option Span} {ss : List Symbol}
    {es : List TypeExpr} (h : related n q.name) (hs : NamesAll related ss es) :
    Names related (.applied n ss) (.user ⟨q, es, span⟩)
  | symbol {s : Symbol} : Names related s (.symbol s)

inductive NamesAll (related : String → String → Prop) : List Symbol → List TypeExpr → Prop
  | nil : NamesAll related [] []
  | cons {s : Symbol} {e : TypeExpr} {ss : List Symbol} {es : List TypeExpr}
    (h : Names related s e) (hs : NamesAll related ss es) : NamesAll related (s :: ss) (e :: es)
end

section Names

variable {related related' : String → String → Prop}

mutual
theorem Names.mono (hr : ∀ n m, related n m → related' n m) :
    ∀ {s : Symbol} {e : TypeExpr}, s.Names related e → s.Names related' e
  | _, _, .sort h => .sort (hr _ _ h)
  | _, _, .applied h hs => .applied (hr _ _ h) (hs.mono hr)
  | _, _, .symbol => .symbol

theorem NamesAll.mono (hr : ∀ n m, related n m → related' n m) :
    ∀ {ss : List Symbol} {es : List TypeExpr}, NamesAll related ss es → NamesAll related' ss es
  | _, _, .nil => .nil
  | _, _, .cons h hs => .cons (h.mono hr) (hs.mono hr)
end

mutual
theorem Names.and : ∀ {s : Symbol} {e : TypeExpr}, s.Names related e → s.Names related' e →
    s.Names (fun n m => related n m ∧ related' n m) e
  | _, _, .sort h, .sort h' => .sort ⟨h, h'⟩
  | _, _, .applied h hs, .applied h' hs' => .applied ⟨h, h'⟩ (hs.and hs')
  | _, _, .symbol, .symbol => .symbol

theorem NamesAll.and : ∀ {ss : List Symbol} {es : List TypeExpr}, NamesAll related ss es →
    NamesAll related' ss es → NamesAll (fun n m => related n m ∧ related' n m) ss es
  | _, _, .nil, .nil => .nil
  | _, _, .cons h hs, .cons h' hs' => .cons (h.and h') (hs.and hs')
end

mutual
theorem Names.nominal : ∀ {s : Symbol} {e : TypeExpr}, s.Names related e → e.Nominal
  | _, _, .sort _ => trivial
  | _, _, .applied _ hs => hs.nominal
  | _, _, .symbol => trivial

theorem NamesAll.nominal : ∀ {ss : List Symbol} {es : List TypeExpr}, NamesAll related ss es →
    TypeExpr.AllNominal es
  | _, _, .nil => trivial
  | _, _, .cons h hs => ⟨h.nominal, hs.nominal⟩
end

end Names

/-- The second name is the first one without the backslash. -/
def Unescapes (written name : String) : Prop := Text.withoutLeading "\\" written = name

theorem names_eq_iff {s : Symbol} {e : TypeExpr} (h : s.Names Unescapes e) :
    s.Names (· = ·) e ↔ s.Names (fun written _ => ¬ Text.Escaped written) e := by
  constructor
  · intro heq
    refine (h.and heq).mono fun n m ⟨hm, hn⟩ => ?_
    exact Text.withoutLeading_eq_self_iff.1 (hm.trans hn.symm)
  · intro hplain
    refine (h.and hplain).mono fun n m ⟨hm, hn⟩ => ?_
    exact (Text.withoutLeading_eq_self_iff.2 hn).symm.trans hm

def NamedBy (e : TypeExpr) : Option Symbol → Prop
  | some s => s.Names Unescapes e
  | none => ¬ e.Nominal

def AllNamedBy (es : List TypeExpr) : Option (List Symbol) → Prop
  | some ss => NamesAll Unescapes ss es
  | none => ¬ TypeExpr.AllNominal es

section Readers

variable {t : Tree} {ts : List Tree} {e : TypeExpr} {es : List TypeExpr}

theorem lastPart?_of_ofTree {q : QualifiedName} (h : QualifiedName.ofTree t = .ok q) :
    ∃ written, lastPart? t = some written ∧ Unescapes written q.name := by
  rw [QualifiedName.ofTree_eq] at h
  split at h
  · cases h
  · obtain ⟨ts, hts, h⟩ := bind_eq_ok.1 h
    obtain ⟨parts, hparts, h⟩ := bind_eq_ok.1 h
    split at h
    · next q' hq =>
      cases pure_eq_ok.1 h
      obtain ⟨name, hlast, rfl⟩ := Option.map_eq_some_iff.1 hq
      obtain ⟨part, hpart, hname⟩ := getLast?_of_mapM hparts hlast
      obtain ⟨written, htext, hwritten⟩ := requireName_eq_ok.1 hname
      refine ⟨written, ?_, hwritten⟩
      rw [lastPart?, listOr_eq_ok.1 hts]
      exact (congrArg (· >>= text?) hpart).trans htext
    · cases h

theorem allNamedBy_mapM (h : ts.mapM TypeExpr.ofTree = .ok es)
    (hts : ∀ t ∈ ts, ∀ e, TypeExpr.ofTree t = .ok e → NamedBy e (ofTypeTree? t)) :
    AllNamedBy es (ts.mapM ofTypeTree?) := by
  induction ts generalizing es with
  | nil =>
    cases h
    exact .nil
  | cons t ts ih =>
    rw [List.mapM_cons] at h
    obtain ⟨e, he, h⟩ := bind_eq_ok.1 h
    obtain ⟨es, hes, h⟩ := bind_eq_ok.1 h
    cases pure_eq_ok.1 h
    obtain ⟨ht, hts⟩ := List.forall_mem_cons.1 hts
    have hhead := ht e he
    have htail := ih hes hts
    rw [List.mapM_cons]
    cases hs : ofTypeTree? t with
    | none =>
      rw [hs] at hhead
      exact fun hnominal => hhead hnominal.1
    | some s =>
      rw [hs] at hhead
      cases hss : ts.mapM ofTypeTree? with
      | none =>
        rw [hss] at htail
        exact fun hnominal => htail hnominal.2
      | some ss =>
        rw [hss] at htail
        exact .cons hhead htail

theorem ofUserTree?_name {n : String} (hc : t.constructor = "Name")
    (hn : (t.nodeArg? 0 >>= lastPart?) = some n) : ofUserTree? t = some (.named .sort n) := by
  simp [ofUserTree?, hn, hc]

theorem ofUserTree?_parametric {n : String} (hc : t.constructor = "Parametric")
    (hn : (t.nodeArg? 0 >>= lastPart?) = some n) (hts : t.listArg? 1 = some ts) :
    ofUserTree? t = ts.mapM ofTypeTree? >>= fun ss => some (.applied n ss) := by
  simp [ofUserTree?, hn, hc, hts]

theorem namedBy_ofUserTree {r : TypeReference TypeExpr} (h : TypeReference.ofTree t = .ok r)
    (hts : ∀ ts, t.listArg? 1 = some ts → ∀ es, ts.mapM TypeExpr.ofTree = .ok es →
      AllNamedBy es (ts.mapM ofTypeTree?)) :
    NamedBy (.user r) (ofUserTree? t) := by
  rw [TypeReference.ofTree_eq] at h
  obtain ⟨name, hname, h⟩ := bind_eq_ok.1 h
  obtain ⟨q, hq, h⟩ := bind_eq_ok.1 h
  obtain ⟨written, hwritten, hunescapes⟩ := lastPart?_of_ofTree hq
  have hlast : (t.nodeArg? 0 >>= lastPart?) = some written := by
    rw [nodeOr_eq_ok.1 hname]
    exact hwritten
  split at h
  · next hc =>
    cases pure_eq_ok.1 h
    rw [ofUserTree?_name hc hlast]
    exact .sort hunescapes
  · next hc =>
    obtain ⟨ts, hlist, h⟩ := bind_eq_ok.1 h
    obtain ⟨es, hes, h⟩ := bind_eq_ok.1 h
    cases pure_eq_ok.1 h
    have harg : t.listArg? 1 = some ts := listOr_eq_ok.1 hlist
    have hall := hts ts harg es hes
    rw [ofUserTree?_parametric hc hlast harg]
    cases hss : ts.mapM ofTypeTree? with
    | none =>
      rw [hss] at hall
      exact hall
    | some ss =>
      rw [hss] at hall
      exact .applied hunescapes hall
  · cases h

theorem namedBy_ofTree {t : Tree} {e : TypeExpr} (h : TypeExpr.ofTree t = .ok e) :
    NamedBy e (ofTypeTree? t) := by
  rw [TypeExpr.ofTree_eq] at h
  split at h
  · cases h
  · next hsort =>
    have hsort : t.sort = "Type" := not_not.1 hsort
    obtain ⟨inner, hinner, h⟩ := bind_eq_ok.1 h
    have harg : t.nodeArg? 0 = some inner := nodeOr_eq_ok.1 hinner
    have hlt := sizeOf_lt_of_nodeArg? harg
    rw [ofTypeTree?_eq, hsort, harg]
    split at h
    -- Built-in types, structured types and type variables: no symbol, and the type is not made of
    -- user types.
    case h_1 hc | h_2 hc | h_4 hc =>
      obtain ⟨_, -, h⟩ := bind_eq_ok.1 h
      cases pure_eq_ok.1 h
      rw [hc]
      exact id
    case h_3 hc =>
      obtain ⟨r, hr, h⟩ := bind_eq_ok.1 h
      cases pure_eq_ok.1 h
      rw [hc]
      refine namedBy_ofUserTree hr fun ts hts es hes => allNamedBy_mapM hes fun u hu e he => ?_
      have := sizeOf_lt_of_listArg? hts hu
      exact namedBy_ofTree he
    case h_5 hc =>
      split at h
      · next s hs =>
        cases pure_eq_ok.1 h
        rw [ofTypeTree?_eq, hsort, harg] at hs
        rw [hs]
        exact .symbol
      · cases h
    case h_6 hc =>
      rw [hc]
      exact namedBy_ofTree h
    case h_7 => cases h
termination_by sizeOf t

end Readers

/-- A type that is read in a declaration is read for a hole as well if it is made of user types and
symbols, and only then. Both readers see the same user types over the same arguments, where names
lose their backslash in the declaration; so the names agree if none is escaped, and only then. -/
theorem readers_of_user_types {t : Tree} {e : TypeExpr} (h : TypeExpr.ofTree t = .ok e) :
    ((∃ s, ofTypeTree? t = some s) ↔ e.Nominal) ∧
    ∀ s, ofTypeTree? t = some s →
      s.Names Unescapes e ∧
      (s.Names (· = ·) e ↔ s.Names (fun written _ => ¬ Text.Escaped written) e) := by
  have hnamed := namedBy_ofTree h
  cases hs : ofTypeTree? t with
  | none =>
    rw [hs] at hnamed
    refine ⟨iff_of_false ?_ hnamed, fun s hs => nomatch hs⟩
    rintro ⟨s, hs⟩
    cases hs
  | some s =>
    rw [hs] at hnamed
    refine ⟨iff_of_true ⟨s, rfl⟩ hnamed.nominal, fun s' hs' => ?_⟩
    cases hs'
    exact ⟨hnamed, names_eq_iff hnamed⟩

def writtenName (parts : List String) : Tree :=
  .applied "QualifiedName" "Default" [.list (parts.map (.word "Name"))]

def writtenType (parts : List String) : List Tree → Tree
  | [] => .applied "Type" "User" [.node (.applied "UserType" "Name" [.node (writtenName parts)])]
  | ts => .applied "Type" "User"
    [.node (.applied "UserType" "Parametric" [.node (writtenName parts), .list ts])]

def boxedTree : Tree :=
  .applied "Type" "Bracket" [.node (writtenType ["lib", "Box"] [writtenType ["\\type"] [],
    .applied "Type" "Symbol" [.node (toTree (.named .sort "Id"))]])]

def boxed : TypeExpr :=
  .user ⟨⟨["lib"], "Box"⟩, [.user ⟨⟨[], "type"⟩, [], none⟩, .symbol (.named .sort "Id")], none⟩

def boxedHole : Symbol := .applied "Box" [.named .sort "\\type", .named .sort "Id"]

theorem readers_of_user_types_boxed :
    TypeExpr.ofTree boxedTree = .ok boxed ∧ boxed.Nominal ∧
    ofTypeTree? boxedTree = some boxedHole ∧ boxedHole.Names Unescapes boxed ∧
    ¬ boxedHole.Names (· = ·) boxed := by
  have he : TypeExpr.ofTree boxedTree = .ok boxed := by cbv
  have hs : ofTypeTree? boxedTree = some boxedHole := by cbv
  obtain ⟨hnominal, hnames⟩ := readers_of_user_types he
  obtain ⟨hunescapes, heq⟩ := hnames boxedHole hs
  refine ⟨he, hnominal.1 ⟨boxedHole, hs⟩, hs, hunescapes, fun h => ?_⟩
  have hplain := heq.1 h
  unfold boxedHole boxed at hplain
  cases hplain with
  | applied _ hargs =>
    cases hargs with
    | cons hfirst _ =>
      cases hfirst with
      | sort hfirst => exact hfirst (by decide)

/-- An escaped name keeps its backslash in the symbol for a hole, and loses it in a declaration. -/
theorem escaped_name_is_kept :
    let t := writtenType ["\\type"] []
    ofTypeTree? t = some (.named .sort "\\type") ∧
    TypeExpr.ofTree t = .ok (.user ⟨⟨[], "type"⟩, [], none⟩) ∧ "\\type" ≠ "type" := by
  refine ⟨?_, ?_, by decide⟩
  · cbv
  · cbv

end Symbol

end ParseForest
