/-!
The built-in types, the keywords that spell them and the constructors that name them in trees.
-/

namespace ParseForest

inductive Builtin where
  | value | void | bool | int | real | rational | num | string | loc | datetime
  | node | list | set | bag | map | tuple | relation | listRelation | type
  deriving DecidableEq

namespace Builtin

def all : List Builtin :=
  [value, void, bool, int, real, rational, num, string, loc, datetime,
    node, list, set, bag, map, tuple, relation, listRelation, type]

theorem mem_all (b : Builtin) : b ∈ all := by cases b <;> decide

def keyword : Builtin → String
  | value => "value"
  | void => "void"
  | bool => "bool"
  | int => "int"
  | real => "real"
  | rational => "rat"
  | num => "num"
  | string => "str"
  | loc => "loc"
  | datetime => "datetime"
  | node => "node"
  | list => "list"
  | set => "set"
  | bag => "bag"
  | map => "map"
  | tuple => "tuple"
  | relation => "rel"
  | listRelation => "lrel"
  | type => "type"

def constructor : Builtin → String
  | value => "Value"
  | void => "Void"
  | bool => "Bool"
  | int => "Int"
  | real => "Real"
  | rational => "Rational"
  | num => "Num"
  | string => "String"
  | loc => "Loc"
  | datetime => "DateTime"
  | node => "Node"
  | list => "List"
  | set => "Set"
  | bag => "Bag"
  | map => "Map"
  | tuple => "Tuple"
  | relation => "Relation"
  | listRelation => "ListRelation"
  | type => "Type"

def ofConstructor? (name : String) : Option Builtin := all.find? (·.constructor == name)

theorem ofConstructor?_constructor (b : Builtin) : ofConstructor? b.constructor = some b := by
  cases b <;> decide

end Builtin

end ParseForest
