import Rulebook.Value.Basic

/-! Entities and what their attributes read as. Besides its own attributes every entity has the
members that all records share; they are never values of a data document, but they have a text. -/

namespace Rulebook

abbrev Entity := List (LooseText × Value)

inductive Attribute where
  | absent
  | own (v : Value)
  /-- A member that all records share, by its text. -/
  | shared (text : String)
  deriving Repr, Inhabited

namespace Attribute

def builtinText (name : String) : String := "function " ++ name ++ "() \x7b [native code] \x7d"

def sharedMembers : List (String × String) :=
  [("__proto__", "[object Object]"), ("constructor", builtinText "Object")] ++
    ["hasOwnProperty", "isPrototypeOf", "propertyIsEnumerable", "toLocaleString", "toString",
      "valueOf", "__defineGetter__", "__defineSetter__", "__lookupGetter__",
      "__lookupSetter__"].map fun name => (name, builtinText name)

/-- What a name reads as: an entity's own attribute comes before a shared member. -/
def of (entity : Entity) (name : String) : Attribute :=
  match Value.field? entity name with
  | some v => .own v
  | none =>
    match Value.field? sharedMembers name with
    | some text => .shared text
    | none => .absent

def isMissing : Attribute → Bool
  | .absent => true
  | .own .null => true
  | _ => false

def display : Attribute → Except Value.Unprintable LooseText
  | .absent => .ok "undefined"
  | .own v => v.display
  | .shared text => .ok text

end Attribute

end Rulebook
