import Rulebook.Fault.Problem

/-! Sessions: a rule, and the steps that replace it. A step that fails leaves the rule as it was. -/

namespace Rulebook

inductive RuleStep where
  /-- Start over. -/
  | reset
  | read (text : String)
  | load (document : Value)
  | edit (name : GroupName) (index : Nat) (patch : Statement)
  /-- Read the text of the rule again. -/
  | reread
  deriving Repr

namespace Rule

def write? (r : Rule) : Except Problem String := r.write.mapError .unsafeText

def read? (text : String) : Except Problem Rule := (read text).mapError .refused

def load? (document : Value) : Except Problem Rule := (ofValue document).mapError .shape

def step (r : Rule) : RuleStep → Except Problem Rule
  | .reset => .ok empty
  | .read text => read? text
  | .load document => load? document
  | .edit name index patch => .ok (r.edit name index patch)
  | .reread => do read? (← r.write?)

end Rule

end Rulebook
