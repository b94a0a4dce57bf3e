import Rulebook.Predicate.Attribute
import Rulebook.Value.Json

/-! Faults and their causes. A definition fixes the code of a fault, its facets and how its message
reads from its data. -/

namespace Rulebook

inductive FacetKind where
  | marker
  | data
  deriving DecidableEq, Repr

def FacetKind.name : FacetKind → String
  | .marker => "marker"
  | .data => "data"

def FacetKind.ofName? : String → Option FacetKind
  | "marker" => some .marker
  | "data" => some .data
  | _ => none

structure Facet where
  kind : FacetKind
  name : String
  deriving DecidableEq, Repr

inductive MessagePart where
  | fixed (s : String)
  | member (name : String)
  deriving DecidableEq, Repr

def MessagePart.fill {m : Type → Type} [Monad m] (member : String → m LooseText) :
    List MessagePart → m LooseText
  | [] => pure ""
  | .fixed s :: parts => do return .ofString s ++ (← fill member parts)
  | .member name :: parts => do
    let text ← member name
    return text ++ (← fill member parts)

structure Report where
  domain : String
  code : String
  message : LooseText
  data : List (LooseText × Value)
  facets : List String
  deriving Repr

structure Definition where
  domain : String
  code : String
  facets : List Facet
  message : List MessagePart
  deriving DecidableEq, Repr

def Definition.fullCode (d : Definition) : String := d.domain ++ "." ++ d.code

def Definition.facetNames (d : Definition) : List String := (d.facets.map Facet.name).eraseDups

/-- Anything that can stand as a cause: nothing, a bare value, a defined fault or a plain error.
Only the last two have causes of their own. -/
inductive Fault where
  | nothing
  | value (v : Value)
  | report (r : Report) (cause : Fault)
  | plain (name message : LooseText) (cause : Fault)
  deriving Repr

namespace Definition

def create (d : Definition) (data : List (LooseText × Value)) (cause : Fault) :
    Except Value.Unprintable Fault := do
  let message ← MessagePart.fill (fun name => (Attribute.of data name).display) d.message
  return .report ⟨d.domain, d.fullCode, message, data, d.facetNames⟩ cause

def matchesFault (d : Definition) : Fault → Bool
  | .report r _ => r.code == d.fullCode
  | _ => false

end Definition

namespace Fault

def isReport : Fault → Bool
  | .report .. => true
  | _ => false

def hasFacet (facet : Facet) : Fault → Bool
  | .report r _ => r.facets.contains facet.name
  | _ => false

end Fault

end Rulebook
