import Rulebook.Filter.Basic
import Rulebook.Value.Json

/-! Filters as parameterized SQL conditions. Values never stand in the text: each leaves a question
mark, and the parameters are in the order of the marks. -/

namespace Rulebook

structure SqlCondition where
  sql : String
  params : List Value
  deriving Repr, Inhabited

/-- A field of an `in` comparison whose value is no list, or an empty one. -/
structure InvalidList where
  field : String
  deriving DecidableEq, Repr

namespace Filter

def quotedName (name : String) : String :=
  "\"" ++ String.ofList (name.toList.flatMap fun c => if c = '"' then ['"', '"'] else [c]) ++ "\""

def compareSql (column sign : String) (value : Value) : SqlCondition :=
  ⟨column ++ " " ++ sign ++ " ?", [value]⟩

/-- The condition of one test. Lists of values have no holes, and there are as many marks as
values. -/
def leafSql (column : String → String) (field : String) (op : FilterOp) (value : Value) :
    Except InvalidList SqlCondition :=
  match op with
  | .equal => .ok (compareSql (column field) "=" value)
  | .notEqual => .ok (compareSql (column field) "!=" value)
  | .greater => .ok (compareSql (column field) ">" value)
  | .less => .ok (compareSql (column field) "<" value)
  | .like => .ok (compareSql (column field) "LIKE" value)
  | .isIn =>
    match value with
    | .list (v :: values) =>
      let marks := String.intercalate ", " ((v :: values).map fun _ => "?")
      .ok ⟨column field ++ " IN (" ++ marks ++ ")", v :: values⟩
    | _ => .error ⟨field⟩

def joiner : Connective → String
  | .and => " AND "
  | .or => " OR "

/-- Joins the parts of a group. No part is the truth value of the empty group, and one part stands
alone. -/
def groupSql (kind : Connective) : List SqlCondition → SqlCondition
  | [] => ⟨match kind with | .and => "1 = 1" | .or => "1 = 0", []⟩
  | [part] => part
  | parts =>
    ⟨String.intercalate (joiner kind) (parts.map fun p => "(" ++ p.sql ++ ")"),
      parts.flatMap (·.params)⟩

mutual

def render (column : String → String) : Filter → Except InvalidList SqlCondition
  | .leaf field op value => leafSql column field op value
  | .group kind clauses => do return groupSql kind (← renderAll column clauses)

def renderAll (column : String → String) : List Filter → Except InvalidList (List SqlCondition)
  | [] => .ok []
  | clause :: clauses => do
    let part ← render column clause
    return part :: (← renderAll column clauses)

end

def toSql (f : Filter) : Except InvalidList SqlCondition := f.render quotedName

end Filter

namespace SqlCondition

def toValue (c : SqlCondition) : Value :=
  .record [("sql", .text c.sql), ("params", .list c.params)]

def text (c : SqlCondition) : String :=
  "WHERE " ++ c.sql ++ "\nparams: " ++ Json.compact (.list c.params)

end SqlCondition

end Rulebook
