import ParseForest.Proofs.Declaration.Spelling
import ParseForest.Proofs.Reading.Conformity
import ParseForest.Proofs.Registry.Standard

/-!
The trees that spell declarations have the shapes of the standard sorts, provided that the default
values in them have, and are read back as they were. Main statements: `conforms_toToplevel`,
`collect_of_interleaves`.
-/

namespace ParseForest

def StandardArgs (args : List (Arg Tree)) : Prop :=
  ∀ s ∈ args.flatMap Arg.trees, s.Conforms .standard

namespace StandardArgs

variable {t : Tree} {ts : List Tree} {args : List (Arg Tree)}

theorem nil : StandardArgs [] := nofun

theorem node (ht : t.Conforms .standard) (h : StandardArgs args) : StandardArgs (.node t :: args) :=
  List.forall_mem_cons.2 ⟨ht, h⟩

theorem list (hts : ∀ t ∈ ts, t.Conforms .standard) (h : StandardArgs args) :
    StandardArgs (.list ts :: args) :=
  List.forall_mem_append.2 ⟨hts, h⟩

end StandardArgs

namespace Tree

theorem conforms_applied {sort constructor : String} {args : List (Arg Tree)} {d : SortDefinition}
    (hd : Registry.standardSort? sort = some d)
    (hc : (constructor, args.map Arg.kind) ∈ d.constructors)
    (hargs : StandardArgs args) :
    (applied sort constructor args).Conforms .standard :=
  conforms_of_parts (fun _ => ⟨Registry.shape?_standard hd hc, nofun, nofun⟩) hargs

theorem conforms_around {sort constructor : String} {s : Tree} {d : SortDefinition}
    (hd : Registry.standardSort? sort = some d) (hc : (constructor, [.node]) ∈ d.constructors)
    (hs : s.Conforms .standard) : (applied sort constructor [.node s]).Conforms .standard :=
  conforms_applied hd hc (.node hs .nil)

theorem conforms_word {sort : String} (text : String) {d : SortDefinition}
    (hd : Registry.standardSort? sort = some d) (hl : d.lexical = true) :
    (word sort text).Conforms .standard := by
  obtain ⟨hshape, hlexical⟩ := Registry.lexical_standard hd hl
  exact conforms_of_parts (fun _ => ⟨hshape, nofun, fun _ _ => ⟨rfl, hlexical⟩⟩) nofun

end Tree

namespace Symbol

mutual
theorem conforms_toTree (s : Symbol) (h : s.Expressible) : s.toTree.Conforms .standard := by
  match s with
  | .named cls n =>
    exact Tree.conforms_around rfl (by simp) (Tree.conforms_word n rfl rfl)
  | .literal t | .caseless t =>
    exact Tree.conforms_around rfl (by simp) (Tree.conforms_word _ rfl rfl)
  | .empty => exact Tree.conforms_applied rfl (by simp) .nil
  | .optional s | .repeated .plus s | .repeated .star s =>
    exact Tree.conforms_around rfl (by simp) (conforms_toTree s h)
  | .labelled l s =>
    exact Tree.conforms_applied rfl (by simp [Arg.kind])
      (.node (conforms_toTree s h) (.node (Tree.conforms_word l rfl rfl) .nil))
  | .separated r s [sep] =>
    rw [Expressible, AllExpressible] at h
    have hs := conforms_toTree s h.1
    have hsep := conforms_toTree sep h.2.2.1
    cases r
    all_goals
      exact Tree.conforms_applied rfl (by simp [toTrees, Arg.kind]) (.node hs (.node hsep .nil))
  | .separated _ _ [] | .separated _ _ (_ :: _ :: _) =>
    rw [Expressible] at h
    cases h.2.1
  | .applied n ss =>
    exact Tree.conforms_applied rfl (by simp [Arg.kind])
      (.node (Tree.conforms_word n rfl rfl) (.list (conforms_toTrees ss h) .nil))

theorem conforms_toTrees (ss : List Symbol) (h : AllExpressible ss) :
    ∀ t ∈ toTrees ss, t.Conforms .standard := by
  match ss with
  | [] => exact nofun
  | s :: ss => exact List.forall_mem_cons.2 ⟨conforms_toTree s h.1, conforms_toTrees ss h.2⟩
end

end Symbol

theorem Tree.conforms_escapedName (name : String) : (escapedName name).Conforms .standard :=
  conforms_word _ rfl rfl

theorem QualifiedName.conforms_toTree (n : QualifiedName) : n.toTree.Conforms .standard := by
  have hparts : ∀ t ∈ n.parts.map Tree.escapedName, t.Conforms .standard :=
    List.forall_mem_map.2 fun name _ => Tree.conforms_escapedName name
  exact Tree.conforms_applied rfl (by simp [Arg.kind]) (.list hparts .nil)

theorem Builtin.conforms_toTree (b : Builtin) : b.toTree.Conforms .standard :=
  Tree.conforms_applied rfl (by cases b <;> decide) .nil

theorem TypeReference.conforms_treeOf (name : QualifiedName) {parameters : List Tree}
    (span : Option Span) (h : ∀ t ∈ parameters, t.Conforms .standard) :
    (treeOf name parameters span).Conforms .standard := by
  have hname := name.conforms_toTree
  cases parameters with
  | nil => exact (Tree.conforms_around rfl (by simp) hname).marked span .zero
  | cons t ts =>
    have ht : (Tree.applied "UserType" "Parametric"
        [.node name.toTree, .list (t :: ts)]).Conforms .standard :=
      Tree.conforms_applied rfl (by simp [Arg.kind]) (.node hname (.list h .nil))
    exact ht.marked span .zero

theorem TypeArgument.conforms_treeOf {type : Tree} (h : type.Conforms .standard)
    (label : Option String) : (treeOf type label).Conforms .standard := by
  cases label with
  | none => exact Tree.conforms_around rfl (by simp) h
  | some label =>
    exact Tree.conforms_applied rfl (by simp [Arg.kind])
      (.node h (.node (Tree.conforms_escapedName label) .nil))

mutual
theorem TypeExpr.conforms_toTree (e : TypeExpr) (h : ∀ s ∈ e.symbols, s.Expressible) :
    e.toTree.Conforms .standard := by
  match e with
  | .builtin b => exact Tree.conforms_around rfl (by simp) b.conforms_toTree
  | .structured kind args =>
    have hargs := TypeArgument.conforms_toTrees args h
    exact Tree.conforms_around rfl (by simp) (Tree.conforms_applied rfl (by simp [Arg.kind])
      (.node kind.conforms_toTree (.list hargs .nil)))
  | .user ⟨name, parameters, span⟩ =>
    have hparameters := TypeExpr.conforms_toTrees parameters h
    exact Tree.conforms_around rfl (by simp) (TypeReference.conforms_treeOf name span hparameters)
  | .typeVar name none =>
    exact Tree.conforms_around rfl (by simp)
      (Tree.conforms_around rfl (by simp) (Tree.conforms_escapedName name))
  | .typeVar name (some bound) =>
    have hbound := TypeExpr.conforms_toTree bound h
    exact Tree.conforms_around rfl (by simp) (Tree.conforms_applied rfl (by simp [Arg.kind])
      (.node (Tree.conforms_escapedName name) (.node hbound .nil)))
  | .symbol s =>
    have hs := s.conforms_toTree (h s (List.mem_singleton_self s))
    exact Tree.conforms_around rfl (by simp) hs

theorem TypeExpr.conforms_toTrees (es : List TypeExpr)
    (h : ∀ s ∈ TypeExpr.allSymbols es, s.Expressible) :
    ∀ t ∈ TypeExpr.toTrees es, t.Conforms .standard := by
  match es with
  | [] => exact nofun
  | e :: es =>
    obtain ⟨he, hes⟩ := List.forall_mem_append.1 h
    exact List.forall_mem_cons.2 ⟨TypeExpr.conforms_toTree e he, TypeExpr.conforms_toTrees es hes⟩

theorem TypeArgument.conforms_toTrees (as : List (TypeArgument TypeExpr))
    (h : ∀ s ∈ TypeArgument.symbols as, s.Expressible) :
    ∀ t ∈ TypeArgument.toTrees as, t.Conforms .standard := by
  match as with
  | [] => exact nofun
  | ⟨type, label⟩ :: as =>
    obtain ⟨htype, has⟩ := List.forall_mem_append.1 h
    exact List.forall_mem_cons.2
      ⟨TypeArgument.conforms_treeOf (TypeExpr.conforms_toTree type htype) label,
        TypeArgument.conforms_toTrees as has⟩
end

theorem TypeReference.conforms_toTree (r : TypeReference TypeExpr)
    (h : ∀ s ∈ TypeExpr.allSymbols r.parameters, s.Expressible) : r.toTree.Conforms .standard :=
  TypeReference.conforms_treeOf r.name r.span (TypeExpr.conforms_toTrees r.parameters h)

namespace KeywordFormal

def defaults (fs : List KeywordFormal) : List Tree := fs.map (·.default)

variable {fs : List KeywordFormal}

theorem conforms_map_toTree (h : ∀ s ∈ symbols fs, s.Expressible)
    (hdefaults : ∀ t ∈ defaults fs, t.Conforms .standard) :
    ∀ t ∈ fs.map toTree, t.Conforms .standard := by
  refine List.forall_mem_map.2 fun f hf => ?_
  have htype := f.type.conforms_toTree fun s hs => h s (List.mem_flatMap.2 ⟨f, hf, hs⟩)
  have hdefault := hdefaults f.default (List.mem_map_of_mem hf)
  exact Tree.conforms_applied rfl (by simp [Arg.kind])
    (.node htype (.node (Tree.conforms_escapedName f.name) (.node hdefault .nil)))

theorem conforms_blockOf {sort present absent : String} {d : SortDefinition}
    (hd : Registry.standardSort? sort = some d) (hpresent : (present, [.list]) ∈ d.constructors)
    (habsent : (absent, []) ∈ d.constructors) (h : ∀ s ∈ symbols fs, s.Expressible)
    (hdefaults : ∀ t ∈ defaults fs, t.Conforms .standard) :
    (blockOf sort present absent fs).Conforms .standard := by
  have hfs := conforms_map_toTree h hdefaults
  cases fs with
  | nil => exact Tree.conforms_applied hd habsent .nil
  | cons f fs => exact Tree.conforms_applied hd hpresent (.list hfs .nil)

end KeywordFormal

theorem Variant.conforms_toTree (v : Variant) (h : ∀ s ∈ v.symbols, s.Expressible)
    (hdefaults : ∀ t ∈ KeywordFormal.defaults v.keywords, t.Conforms .standard) :
    v.toTree.Conforms .standard := by
  obtain ⟨harguments, hkeywords⟩ := List.forall_mem_append.1 h
  have harguments := TypeArgument.conforms_toTrees v.arguments harguments
  have hkeywords : (KeywordFormal.ownToTree v.keywords).Conforms .standard :=
    KeywordFormal.conforms_blockOf rfl (by simp) (by simp) hkeywords hdefaults
  exact Tree.conforms_applied rfl (by simp [Arg.kind])
    (.node (Tree.conforms_escapedName v.name) (.list harguments (.node hkeywords .nil)))

namespace Declaration

def defaults : Declaration → List Tree
  | .data _ keywords variants => KeywordFormal.defaults keywords ++
    variants.flatMap fun v => KeywordFormal.defaults v.keywords
  | .abstractData _ keywords => KeywordFormal.defaults keywords
  | .synonym .. => []

variable {tags visibility : Tree}

theorem conforms_toToplevel (d : Declaration) (h : ∀ s ∈ d.symbols, s.Expressible)
    (htags : tags.Conforms .standard) (hvisibility : visibility.Conforms .standard)
    (hdefaults : ∀ t ∈ d.defaults, t.Conforms .standard) :
    (d.toToplevel tags visibility).Conforms .standard := by
  have hcommon {keywords : List KeywordFormal}
      (h : ∀ s ∈ KeywordFormal.symbols keywords, s.Expressible)
      (hdefaults : ∀ t ∈ KeywordFormal.defaults keywords, t.Conforms .standard) :
      (KeywordFormal.commonToTree keywords).Conforms .standard :=
    KeywordFormal.conforms_blockOf rfl (by simp) (by simp) h hdefaults
  refine Tree.conforms_around rfl (by simp) ?_
  cases d with
  | data type keywords variants =>
    obtain ⟨h, hvariants⟩ := List.forall_mem_append.1 h
    obtain ⟨htype, hkeywords⟩ := List.forall_mem_append.1 h
    obtain ⟨hshared, howned⟩ := List.forall_mem_append.1 hdefaults
    have hvariants : ∀ t ∈ variants.map Variant.toTree, t.Conforms .standard := by
      refine List.forall_mem_map.2 fun v hv => v.conforms_toTree ?_ ?_
      · exact fun s hs => hvariants s (List.mem_flatMap.2 ⟨v, hv, hs⟩)
      · exact fun t ht => howned t (List.mem_flatMap.2 ⟨v, hv, ht⟩)
    exact Tree.conforms_applied rfl (by simp [Arg.kind])
      (.node htags (.node hvisibility (.node (type.conforms_toTree htype)
        (.node (hcommon hkeywords hshared) (.list hvariants .nil)))))
  | abstractData type keywords =>
    obtain ⟨htype, hkeywords⟩ := List.forall_mem_append.1 h
    exact Tree.conforms_applied rfl (by simp [Arg.kind])
      (.node htags (.node hvisibility (.node (type.conforms_toTree htype)
        (.node (hcommon hkeywords hdefaults) .nil))))
  | synonym type base =>
    obtain ⟨htype, hbase⟩ := List.forall_mem_append.1 h
    exact Tree.conforms_applied rfl (by simp [Arg.kind])
      (.node htags (.node hvisibility (.node (type.conforms_toTree htype)
        (.node (base.conforms_toTree hbase) .nil))))

/-- Reading toplevels undoes spelling the declarations among them, and what spells a declaration
has the shapes of the standard sorts. -/
theorem collect_of_interleaves {ts : List Tree} {ds : List Declaration} (h : Interleaves ts ds)
    (hds : ∀ d ∈ ds, ∀ s ∈ d.symbols, s.Expressible) :
    collect ts = .ok ds ∧
    ∀ d ∈ ds, (∀ t ∈ d.defaults, t.Conforms .standard) → ∀ tags visibility : Tree,
      tags.Conforms .standard → visibility.Conforms .standard →
        (d.toToplevel tags visibility).Conforms .standard :=
  ⟨h.collect_eq hds, fun d hd hdefaults _ _ htags hvisibility =>
    d.conforms_toToplevel (hds d hd) htags hvisibility hdefaults⟩

theorem collect_dataAndSynonym :
    let tags := Tree.applied "Tags" "Default" [.list []]
    let visibility := Tree.applied "Visibility" "Default" []
    let one := Tree.applied "Expression" "Literal" [.node (.word "IntLit" "1")]
    let exp := data ⟨⟨[], "Exp"⟩, [.typeVar "T" (some (.builtin .num))], none⟩
      [⟨.builtin .int, "line", one⟩]
      [⟨"lit", [⟨.typeVar "T" none, some "value"⟩], []⟩,
        ⟨"call", [⟨.structured .list [⟨.user ⟨⟨["Lang"], "Exp"⟩, [], some ⟨40, 9⟩⟩, none⟩],
          none⟩], []⟩]
    let exps := synonym ⟨⟨[], "Exps"⟩, [], none⟩
      (.symbol (.separated .star (.labelled "item" (.applied "Exp" [.named .sort "Num"]))
        [.literal ","]))
    let imported := Tree.applied "Import" "Default" [.node (.word "Name" "Lang")]
    let counters := Tree.applied "Toplevel" "GivenVisibility"
      [.node (.applied "Declaration" "Variable" [.node tags, .node visibility,
        .node (TypeExpr.builtin .int).toTree, .list []])]
    collect [imported, exp.toToplevel tags visibility, counters,
      exps.toToplevel tags visibility] = .ok [exp, exps] ∧
    (exp.toToplevel tags visibility).Conforms .standard ∧
    (exps.toToplevel tags visibility).Conforms .standard := by
  intro tags visibility one exp exps imported counters
  have htags : tags.Conforms .standard :=
    Tree.conforms_applied rfl (by simp [Arg.kind]) (.list nofun .nil)
  have hvisibility : visibility.Conforms .standard := Tree.conforms_applied rfl (by simp) .nil
  have hone : one.Conforms .standard :=
    Tree.conforms_around rfl (by simp) (Tree.conforms_word "1" rfl rfl)
  have hdefaults : ∀ t ∈ exp.defaults, t.Conforms .standard := by
    intro t ht
    cases List.mem_singleton.1 ht
    exact hone
  have hall : Interleaves [imported, exp.toToplevel tags visibility, counters,
      exps.toToplevel tags visibility] [exp, exps] :=
    .untyped (.other (by decide)) (.declaration tags visibility exp
      (.untyped (.ofVariables _) (.declaration tags visibility exps .nil)))
  have hsymbols : ∀ d ∈ [exp, exps], ∀ s ∈ d.symbols, s.Expressible := by
    simp [exp, exps, symbols, TypeExpr.symbols, TypeExpr.allSymbols, TypeArgument.symbols,
      KeywordFormal.symbols, Variant.symbols, Symbol.Expressible, Symbol.AllExpressible]
  obtain ⟨hcollect, hshapes⟩ := collect_of_interleaves hall hsymbols
  exact ⟨hcollect, hshapes exp (by simp) hdefaults tags visibility htags hvisibility,
    hshapes exps (by simp) nofun tags visibility htags hvisibility⟩

end Declaration

end ParseForest
