import Rulebook.Fault.Definitions

/-! Names for domains, facets, definitions and faults, and the steps that bind them. A step that
fails binds nothing. -/

namespace Rulebook

structure Registry where
  domains : List (String × String)
  facets : List (String × Facet)
  definitions : List (String × Definition)
  faults : List (String × Fault)
  deriving Repr

inductive RegistryStep where
  | boundary (domain : String)
  | facet (f : Facet)
  | define (boundary code : String) (facets : List String) (message : List MessagePart)
  | create (definition : String) (data : List (LooseText × Value)) (cause : Option String)
  | plain (name message : LooseText) (cause : Option String)
  | value (v : Value)
  deriving Repr

namespace Registry

variable (r : Registry)

def fault (name : Option String) : Fault := (name.bind (Value.field? r.faults)).getD .nothing

def facet? (name : String) : Option Facet := Value.field? r.facets name

def definition? (name : String) : Option Definition := Value.field? r.definitions name

def bindFault (id : String) (f : Fault) : Registry := { r with faults := (id, f) :: r.faults }

def step (id : String) : RegistryStep → Except Value.Unprintable Registry
  | .boundary domain => .ok { r with domains := (id, domain) :: r.domains }
  | .facet f => .ok { r with facets := (id, f) :: r.facets }
  | .define boundary code facets message =>
    let d : Definition :=
      ⟨(Value.field? r.domains boundary).getD "", code, facets.filterMap r.facet?, message⟩
    .ok { r with definitions := (id, d) :: r.definitions }
  | .create definition data cause =>
    match r.definition? definition with
    | none => .ok r
    | some d => do return r.bindFault id (← d.create data (r.fault cause))
  | .plain name message cause => .ok (r.bindFault id (.plain name message (r.fault cause)))
  | .value v => .ok (r.bindFault id (.value v))

def isOf (definition : String) (name : Option String) : Bool :=
  (r.definition? definition).any fun d => d.matchesFault (r.fault name)

def hasFacet (facet : String) (name : Option String) : Bool :=
  (r.facet? facet).any fun f => (r.fault name).hasFacet f

end Registry

end Rulebook
