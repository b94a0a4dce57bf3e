import Rulebook.Expr.Grammar

/-! The `CASE WHEN` fragment of a rule. Condition and branches are copied as they were written. -/

namespace Rulebook.Fragment

/-- The fragment of a node with three children; other nodes have none. -/
def ofNode (node : Expr.Node) (table : String) : String :=
  match node.children with
  | [condition, thenBranch, elseBranch] =>
    "SELECT CASE WHEN " ++ condition.source ++ " THEN " ++ thenBranch.source ++ " ELSE " ++
      elseBranch.source ++ " FROM " ++ table
  | _ => ""

def ofText (text table : String) : Except Expr.SyntaxError String :=
  (Expr.parse text).map fun c => ofNode c.node table

end Rulebook.Fragment
