import ParseForest.Registry.Basic

/-! The sorts and constructors of the target language, in the order of their definition. -/

namespace ParseForest.Registry

def standardSorts : List SortDefinition := [
  ⟨"Module", false, [("Default", [.node, .node])]⟩,
  ⟨"Header", false, [
    ("Default", [.node, .node, .list]), ("Parameters", [.node, .node, .node, .list])]⟩,
  ⟨"ModuleParameters", false, [("Default", [.list])]⟩,
  ⟨"Import", false, [("Default", [.node]), ("Extend", [.node])]⟩,
  ⟨"ImportedModule", false, [("Default", [.node])]⟩,
  ⟨"Body", false, [("Toplevels", [.list])]⟩,
  ⟨"Tags", false, [("Default", [.list])]⟩,
  ⟨"Tag", false, [("Default", [.node, .node]), ("Empty", [.node])]⟩,
  ⟨"Toplevel", false, [("GivenVisibility", [.node])]⟩,
  ⟨"Visibility", false, [("Public", []), ("Private", []), ("Default", [])]⟩,
  ⟨"Declaration", false, [
    ("Data", [.node, .node, .node, .node, .list]),
    ("DataAbstract", [.node, .node, .node, .node]), ("Alias", [.node, .node, .node, .node]),
    ("Variable", [.node, .node, .node, .list])]⟩,
  ⟨"CommonKeywordParameters", false, [("Present", [.list]), ("Absent", [])]⟩,
  ⟨"KeywordFormals", false, [("Default", [.list]), ("None", [])]⟩,
  ⟨"KeywordFormal", false, [("Default", [.node, .node, .node])]⟩,
  ⟨"Variant", false, [("NAryConstructor", [.node, .list, .node])]⟩,
  ⟨"Variable", false, [("Initialized", [.node, .node]), ("UnInitialized", [.node])]⟩,
  ⟨"TypeArg", false, [("Default", [.node]), ("Named", [.node, .node])]⟩,
  ⟨"UserType", false, [("Name", [.node]), ("Parametric", [.node, .list])]⟩,
  ⟨"Type", false, [
    ("Basic", [.node]), ("User", [.node]), ("Variable", [.node]), ("Structured", [.node]),
    ("Symbol", [.node]), ("Bracket", [.node])]⟩,
  ⟨"BasicType", false, [
    ("Value", []), ("Void", []), ("Bool", []), ("Int", []), ("Real", []), ("Rational", []),
    ("Num", []), ("String", []), ("Loc", []), ("DateTime", []), ("Node", []), ("List", []),
    ("Set", []), ("Bag", []), ("Map", []), ("Tuple", []), ("Relation", []), ("ListRelation", []),
    ("Type", [])]⟩,
  ⟨"StructuredType", false, [("Default", [.node, .list])]⟩,
  ⟨"TypeVar", false, [("Free", [.node]), ("Bounded", [.node, .node])]⟩,
  ⟨"Sym", false, [
    ("Nonterminal", [.node]), ("Parametrized", [.node, .list]), ("Iter", [.node]),
    ("IterStar", [.node]), ("IterSep", [.node, .node]), ("IterStarSep", [.node, .node]),
    ("Optional", [.node]), ("Labeled", [.node, .node]), ("Literal", [.node]),
    ("CaseInsensitiveLiteral", [.node]), ("Empty", [])]⟩,
  ⟨"Expression", false, [
    ("Call", [.node, .list]), ("CallWithKeywords", [.node, .list, .list]),
    ("QualifiedName", [.node]), ("Literal", [.node]), ("List", [.list]), ("Set", [.list]),
    ("Tuple", [.list]), ("Map", [.list]), ("Bracket", [.node]), ("Addition", [.node, .node]),
    ("Subtraction", [.node, .node]), ("Product", [.node, .node]), ("Division", [.node, .node]),
    ("Equals", [.node, .node]), ("NonEquals", [.node, .node]), ("LessThan", [.node, .node]),
    ("GreaterThan", [.node, .node]), ("And", [.node, .node]), ("Or", [.node, .node]),
    ("Negation", [.node]), ("Negative", [.node]), ("IfThenElse", [.node, .node, .node]),
    ("FieldAccess", [.node, .node]), ("Subscript", [.node, .list]), ("Match", [.node, .node]),
    ("IsDefined", [.node]), ("It", []), ("TypedVariable", [.node, .node]),
    ("MultiVariable", [.node]), ("Guarded", [.node, .node]), ("VariableBecomes", [.node, .node]),
    ("TypedVariableBecomes", [.node, .node, .node]), ("Descendant", [.node]), ("Anti", [.node]),
    ("Closure", [.node, .list, .list])]⟩,
  ⟨"Mapping_Expression", false, [("Default", [.node, .node])]⟩,
  ⟨"Literal", false, [
    ("Integer", [.node]), ("Boolean", [.node]), ("String", [.node]), ("Real", [.node])]⟩,
  ⟨"QualifiedName", false, [("Default", [.list])]⟩,
  ⟨"Statement", false, [
    ("Expression", [.node]), ("Assignment", [.node, .node, .node]), ("Return", [.node]),
    ("Throw", [.node]), ("Block", [.node, .list]), ("IfThen", [.node, .list, .node]),
    ("IfThenElse", [.node, .list, .node, .node]), ("While", [.node, .list, .node]),
    ("For", [.node, .list, .node]), ("Insert", [.node, .node]), ("Append", [.node, .node]),
    ("Fail", [.node]), ("Break", [.node]), ("Continue", [.node]), ("EmptyStatement", []),
    ("VariableDeclaration", [.node])]⟩,
  ⟨"Label", false, [("Default", [.node]), ("Empty", [])]⟩,
  ⟨"Target", false, [("Labeled", [.node]), ("Empty", [])]⟩,
  ⟨"DataTarget", false, [("Labeled", [.node]), ("Empty", [])]⟩,
  ⟨"Assignable", false, [("Variable", [.node]), ("Subscript", [.node, .node])]⟩,
  ⟨"Assignment", false, [
    ("Default", []), ("Addition", []), ("Subtraction", []), ("IfDefined", [])]⟩,
  ⟨"LocalVariableDeclaration", false, [("Default", [.node])]⟩,
  ⟨"Command", false, [
    ("Expression", [.node]), ("Statement", [.node]), ("Declaration", [.node]),
    ("Import", [.node])]⟩,
  ⟨"Name", true, []⟩,
  ⟨"IntLit", true, []⟩,
  ⟨"IntegerLiteral", true, []⟩,
  ⟨"BooleanLiteral", true, []⟩,
  ⟨"RealLiteral", true, []⟩,
  ⟨"StringConstant", true, []⟩,
  ⟨"StringLiteral", true, []⟩,
  ⟨"CaseInsensitiveStringConstant", true, []⟩,
  ⟨"Nonterminal", true, []⟩,
  ⟨"NonterminalLabel", true, []⟩,
  ⟨"TagString", true, []⟩]

def standard : Registry := standardSorts.foldl define empty

def standardSort? (name : String) : Option SortDefinition :=
  standardSorts.find? (·.name == name)

end ParseForest.Registry
