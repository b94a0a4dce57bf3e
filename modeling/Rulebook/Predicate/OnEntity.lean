import Rulebook.Predicate.Attribute
import Rulebook.Predicate.Builder
import Rulebook.Predicate.Coercion
import Rulebook.Predicate.Like

/-! Predicates on entities. A literal is compared with the type an attribute has: with numbers and
truth values by what it means, with all else by its text. A missing attribute matches nothing, not
even `notEqual`. -/

namespace Rulebook
open Value (Unprintable)

namespace Attribute

def matchesLiteral (a : Attribute) (literal : String) : Except Unprintable Bool :=
  match a with
  | .absent => .ok false
  | .own .null => .ok false
  | .own (.number n) =>
    .ok <| match coerce literal with
      | .number m => m.equal n
      | _ => false
  | .own (.bool b) => .ok (coerce literal == .bool b)
  | a => do return (← a.display) == literal

/-- Where an attribute stands to a literal. Two numbers, a number text among them, are ordered by
size and other texts by code units; nothing else has an order. -/
def compare? (a : Attribute) (literal : String) : Option Ordering :=
  match a, coerce literal with
  | .own (.number n), .number m => n.compare? m
  | .own (.text t), .number m =>
    match t.string?.bind Number.ofPlain? with
    | some n => n.compare? m
    | none => some (t.compare16 literal)
  | .own (.text t), _ => some (t.compare16 literal)
  | _, _ => none

/-- The text that a pattern is compared with: only texts and numbers have one. -/
def likeText? : Attribute → Option LooseText
  | .own (.text t) => some t
  | .own (.number n) => some n.text
  | _ => none

def matchesAny (a : Attribute) : List String → Except Unprintable Bool
  | [] => .ok false
  | literal :: rest => do if ← a.matchesLiteral literal then return true else a.matchesAny rest

end Attribute

abbrev EntityPredicate := Entity → Except Unprintable Bool

def entityPredicates : PredicateBuilder EntityPredicate (Entity → Attribute) where
  handle name entity := .of entity name
  equal read literal entity := (read entity).matchesLiteral literal
  notEqual read literal entity :=
    if (read entity).isMissing then .ok false
    else (!·) <$> (read entity).matchesLiteral literal
  greaterThan read literal entity := .ok ((read entity).compare? literal == some .gt)
  lessThan read literal entity := .ok ((read entity).compare? literal == some .lt)
  like read pattern entity := .ok ((read entity).likeText?.any (Like.holds pattern))
  isIn read literals entity := (read entity).matchesAny literals
  both p q entity := do if ← p entity then q entity else return false
  either p q entity := do if ← p entity then return true else q entity
  never _ := .ok false

end Rulebook
