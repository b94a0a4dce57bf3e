import Rulebook.Fault.Basic

/-! The definitions of the faults of filters, of rules and of commands. -/

namespace Rulebook

namespace Facet

def notFound : Facet := ⟨.marker, "NotFound"⟩

def badInput : Facet := ⟨.marker, "BadInput"⟩

def hasField : Facet := ⟨.data, "HasField"⟩

def all : List Facet := [notFound, badInput, hasField]

end Facet

namespace Definition
open MessagePart

def coreDomain : String := "core"

def ruleDomain : String := "rule-parser"

def commandDomain : String := "cli"

def invalidFilterValue : Definition :=
  ⟨coreDomain, "invalid_filter_value", [.badInput, .hasField],
    [fixed "Filter on '", member "field", fixed "' with operator ", member "op", fixed " expects ",
      member "expected"]⟩

def invalidSyntax : Definition :=
  ⟨ruleDomain, "invalid_syntax", [.badInput],
    [fixed "Invalid rule \"", member "expression", fixed "\": ", member "reason",
      fixed " (at position ", member "index", fixed ")"]⟩

def unsafeLiteral : Definition :=
  ⟨ruleDomain, "unsafe_literal", [.badInput],
    [fixed "Rule statement value \"", member "value",
      fixed "\" is not allowed; use letters, digits, spaces and , . _ -"]⟩

def unsafeField : Definition :=
  ⟨ruleDomain, "unsafe_field", [.badInput, .hasField],
    [fixed "Rule statement field \"", member "field", fixed "\" is not a valid identifier"]⟩

def invalidShape : Definition :=
  ⟨ruleDomain, "invalid_rule_shape", [.badInput],
    [fixed "Invalid structured rule at ", member "path", fixed ": ", member "reason"]⟩

def configNotFound : Definition :=
  ⟨commandDomain, "config_not_found", [.notFound],
    [fixed "No quill.yaml found (searched from ", member "searched", fixed ")"]⟩

def invalidConfig : Definition :=
  ⟨commandDomain, "invalid_config", [.badInput],
    [fixed "Invalid rules file ", member "file", fixed ": ", member "reason"]⟩

def invalidEntity : Definition :=
  ⟨commandDomain, "invalid_entity", [.badInput], [fixed "Invalid entity: ", member "reason"]⟩

def fileNotFound : Definition :=
  ⟨commandDomain, "file_not_found", [.notFound], [fixed "File not found: ", member "file"]⟩

def invalidRuleFile : Definition :=
  ⟨commandDomain, "invalid_rule_file", [.badInput],
    [fixed "Cannot read rule from ", member "file", fixed ": ", member "reason"]⟩

def incompleteRule : Definition :=
  ⟨commandDomain, "incomplete_rule", [.badInput],
    [fixed "Rule in ", member "file",
      fixed " is incomplete: \"if\" needs an operator and \"then\" a value"]⟩

def missingTable : Definition :=
  ⟨commandDomain, "missing_table", [.badInput],
    [fixed "No table given; pass --table or set \"table\" in quill.yaml"]⟩

def all : List Definition :=
  [invalidFilterValue, invalidSyntax, unsafeLiteral, unsafeField, invalidShape, configNotFound,
    invalidConfig, invalidEntity, fileNotFound, invalidRuleFile, incompleteRule, missingTable]

end Definition

end Rulebook
